import EarlyBoot.Record.AcpiRoot
import EarlyBoot.Record.Framebuffer
import EarlyBoot.Record.MemoryMap
import EarlyBoot.Record.Processors
import EarlyBoot.Record.Ramdisk
import EarlyBoot.Record.Text

/-!
# `EarlyBoot.BootInfo`: what is known about the machine

One slot per kind of tag that the system uses, each empty until a tag of that
kind is accepted, and two totals that follow the memory map and the processors.
A tag of any other kind is accepted without effect; a tag that its decoder
refuses leaves everything as it was.

The kinds that have a slot are those that `TagKind.isConsumed` tells.

Main statement:

* `accept_of_ignored` : tags of other kinds have no effect.
-/

set_option autoImplicit false

namespace EarlyBoot

/-- What is known about the machine. -/
structure BootInfo where
  memoryMap : Option MemoryMap := none
  framebuffer : Option Framebuffer := none
  commandLine : Option BootText := none
  acpiRoot : Option AcpiRoot := none
  processors : Option Processors := none
  ramdisk : Option Ramdisk := none
  bootloader : Option BootText := none
  /-- Usable memory in whole mebibytes; none without a memory map. -/
  usableMebibytes : UInt32 := 0
  /-- Number of processors; one unless a tag says otherwise. -/
  processorCount : UInt32 := 1
  deriving DecidableEq

/-- Whether tags of this kind have a slot. -/
def TagKind.isConsumed : TagKind → Bool
  | .memoryMap | .framebuffer | .commandLine | .acpiRoot | .processors | .ramdisk
  | .bootloader => true
  | _ => false

namespace BootInfo

def unknown : BootInfo := {}

/-- Decodes a tag into its slot. -/
def accept (info : BootInfo) (tag : RawTag) : Except TagRejection BootInfo :=
  match tag.kind with
  | .memoryMap => do
      let map ← MemoryMap.decode tag
      return { info with memoryMap := some map, usableMebibytes := map.usableMebibytes }
  | .framebuffer => do
      let fb ← Framebuffer.decode tag
      return { info with framebuffer := some fb }
  | .commandLine => do
      let text ← BootText.decode tag
      return { info with commandLine := some text }
  | .acpiRoot => do
      let root ← AcpiRoot.decode tag
      return { info with acpiRoot := some root }
  | .processors => do
      let processors ← Processors.decode tag
      return { info with processors := some processors, processorCount := processors.count }
  | .ramdisk => do
      let ramdisk ← Ramdisk.decode tag
      return { info with ramdisk := some ramdisk }
  | .bootloader => do
      let text ← BootText.decode tag
      return { info with bootloader := some text }
  | .closing | .modules | .bootTime | .kernelFile | .efiSystemTable | .vendor _ | .unknown _ =>
      .ok info

/-- Take a tag of a kind that `TagKind.isConsumed` refuses. Then `BootInfo.accept` succeeds on it
and returns `info` as it was: no field of the record belongs to the tag. -/
theorem accept_of_ignored {info : BootInfo} {tag : RawTag} (h : tag.kind.isConsumed = false) :
    info.accept tag = .ok info := by
  unfold accept
  cases hk : tag.kind <;> simp_all [TagKind.isConsumed]

end BootInfo

end EarlyBoot

import EarlyBoot.Text.Numeral

/-!
# `EarlyBoot.Tag.Kind`: what a tag says it is

A tag starts with a 16-bit code. The first twelve codes have a meaning; those
from `vendorBase` on are free for vendors and the rest are unassigned.

Main statement:

* `code_ofCode` : a kind remembers the code that it was read from.
-/

set_option autoImplicit false

namespace EarlyBoot

/-- What a tag says it is. -/
inductive TagKind where
  /-- Closes the list of tags. -/
  | closing
  | commandLine
  | memoryMap
  | framebuffer
  | modules
  | acpiRoot
  | processors
  | bootTime
  | bootloader
  | kernelFile
  | efiSystemTable
  | ramdisk
  /-- A vendor's own tag. -/
  | vendor (code : UInt16)
  /-- A code that has no meaning yet. -/
  | unknown (code : UInt16)
  deriving DecidableEq, Repr

namespace TagKind

/-- First code of the vendors. -/
def vendorBase : UInt16 := 0x8000

/-- The kind that a code stands for. -/
def ofCode (code : UInt16) : TagKind :=
  match code with
  | 0x0 => .closing
  | 0x1 => .commandLine
  | 0x2 => .memoryMap
  | 0x3 => .framebuffer
  | 0x4 => .modules
  | 0x5 => .acpiRoot
  | 0x6 => .processors
  | 0x7 => .bootTime
  | 0x8 => .bootloader
  | 0x9 => .kernelFile
  | 0xA => .efiSystemTable
  | 0xB => .ramdisk
  | code => if vendorBase ≤ code then .vendor code else .unknown code

def code : TagKind → UInt16
  | .closing        => 0x0
  | .commandLine    => 0x1
  | .memoryMap      => 0x2
  | .framebuffer    => 0x3
  | .modules        => 0x4
  | .acpiRoot       => 0x5
  | .processors     => 0x6
  | .bootTime       => 0x7
  | .bootloader     => 0x8
  | .kernelFile     => 0x9
  | .efiSystemTable => 0xA
  | .ramdisk        => 0xB
  | .vendor code    => code
  | .unknown code   => code

def name : TagKind → String
  | .closing        => "end"
  | .commandLine    => "command line"
  | .memoryMap      => "memory map"
  | .framebuffer    => "framebuffer"
  | .modules        => "modules"
  | .acpiRoot       => "ACPI RSDP"
  | .processors     => "SMP"
  | .bootTime       => "boot time"
  | .bootloader     => "bootloader"
  | .kernelFile     => "kernel file"
  | .efiSystemTable => "EFI system table"
  | .ramdisk        => "initrd"
  | .vendor code    => "vendor " ++ Text.hex 4 code.toNat
  | .unknown code   => "unknown " ++ Text.hex 4 code.toNat

/-- A kind remembers the code that it was read from, so `code` undoes `ofCode` also on vendor codes
and on those that have no meaning. -/
@[simp]
theorem code_ofCode (c : UInt16) : (ofCode c).code = c := by
  unfold ofCode
  split <;> first | rfl | (split <;> rfl)

end TagKind

end EarlyBoot

import EarlyBoot.BootInfo
import EarlyBoot.Region.Writer

/-!
# `EarlyBoot.BootInfo.Contents`: what is known, wherever it was found

The contents of a record are what its tags say, without where the tags lie in
their region. Two regions that say the same in different places have the same
contents.
-/

set_option autoImplicit false

namespace EarlyBoot

/-- What a record says, without where it was found. -/
structure Contents where
  ranges : Option (List MemoryRange) := none
  mode : Option ScreenMode := none
  commandLine : Option ByteArray := none
  acpiRoot : Option UInt64 := none
  /-- How many processors there are, which one the system boots on, and their records. -/
  processors : Option (UInt32 × UInt32 × List Processor) := none
  /-- Start and length. -/
  ramdisk : Option (UInt64 × UInt64) := none
  bootloader : Option ByteArray := none
  usableMebibytes : UInt32 := 0
  processorCount : UInt32 := 1
  deriving DecidableEq

/-- What a record says. -/
def BootInfo.contents (info : BootInfo) : Contents where
  ranges := info.memoryMap.map MemoryMap.entries
  mode := info.framebuffer.map Framebuffer.toScreenMode
  commandLine := info.commandLine.map BootText.bytes
  acpiRoot := info.acpiRoot.map AcpiRoot.address
  processors := info.processors.map fun p => (p.count, p.bootId, p.entries)
  ramdisk := info.ramdisk.map fun r => (r.start, r.length)
  bootloader := info.bootloader.map BootText.bytes
  usableMebibytes := info.usableMebibytes
  processorCount := info.processorCount

namespace Contents

/-- The bytes of a text in front of its first NUL. -/
def textBytes (content : String) : ByteArray :=
  (content.toUTF8.data.toList.takeWhile (· ≠ 0)).toByteArray

end Contents

end EarlyBoot

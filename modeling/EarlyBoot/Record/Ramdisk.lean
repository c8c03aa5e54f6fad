import EarlyBoot.Record.Fields

/-!
# `EarlyBoot.Record.Ramdisk`: where the initial ramdisk is

The tag holds the address and the length of the initial ramdisk, neither of
which is zero.
-/

set_option autoImplicit false

namespace EarlyBoot

/-- An accepted ramdisk. -/
structure Ramdisk where
  tag : RawTag
  start : UInt64
  length : UInt64
  deriving DecidableEq

namespace Ramdisk

def tagSize : Nat := 24

def decode (tag : RawTag) : Except TagRejection Ramdisk := do
  let fields ← tag.fields tagSize
  let start ← fields.uint64 8
  let length ← fields.uint64 16
  requireNonzero start .ramdiskStart
  requireNonzero length .ramdiskLength
  return { tag, start, length }

end Ramdisk

end EarlyBoot

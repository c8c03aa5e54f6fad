import EarlyBoot.Record.Fields

/-!
# `EarlyBoot.Record.AcpiRoot`: where the firmware tables are

The tag holds the address of the root of the firmware's tables, which is not
zero.
-/

set_option autoImplicit false

namespace EarlyBoot

/-- An accepted root of the firmware tables. -/
structure AcpiRoot where
  tag : RawTag
  address : UInt64
  deriving DecidableEq

namespace AcpiRoot

def tagSize : Nat := 16

def decode (tag : RawTag) : Except TagRejection AcpiRoot := do
  let fields ← tag.fields tagSize
  let address ← fields.uint64 8
  requireNonzero address .rsdpAddress
  return { tag, address }

end AcpiRoot

end EarlyBoot

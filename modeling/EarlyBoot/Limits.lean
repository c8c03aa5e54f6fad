/-!
# `EarlyBoot.Limits`: what a reader of regions puts up with

The producer of a region is not trusted, so its version, its size and the number
of its tags are bounded before anything else is read.
-/

set_option autoImplicit false

namespace EarlyBoot

/-- The first four bytes of every region, as a number. -/
def regionMagic : UInt32 := 0x44424F4B

/-- Size of the header of a region. -/
def headerSize : Nat := 16

def tagHeaderSize : Nat := 8

/-- Size of the smallest region: its header and a closing tag. -/
def minTotalSize : Nat := headerSize + tagHeaderSize

/-- Bounds that a region has to keep. -/
structure Limits where
  /-- Oldest version of the format that is understood. -/
  minVersion : UInt32 := 1
  /-- Greatest declared size, in bytes. -/
  maxTotalSize : UInt32 := 16 * 1024 * 1024
  /-- Number of tags after which a reading is given up. -/
  maxTags : UInt32 := 1000
  deriving DecidableEq, Repr

def Limits.standard : Limits := {}

end EarlyBoot

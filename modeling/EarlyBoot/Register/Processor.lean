import EarlyBoot.Register.Image

/-!
# `EarlyBoot.Register.Processor`: the flags of a processor record

Bit 0 tells whether the processor may be used and bit 1 whether it is the one
that the system boots on. The other thirty bits are reserved.
-/

set_option autoImplicit false

namespace EarlyBoot.Register

/-- The flags of a processor record. -/
structure ProcessorFlags where
  image : BitVec 32
  deriving DecidableEq, Repr

namespace ProcessorFlags

/-- A named flag. -/
inductive Flag where
  | enabled
  | bootstrap
  deriving DecidableEq, Repr

def Flag.bit : Flag → Nat
  | .enabled   => 0
  | .bootstrap => 1

def Flag.name : Flag → String
  | .enabled   => "enabled"
  | .bootstrap => "bootstrap"

/-- All flags, in order of their bits. -/
def Flag.all : List Flag := [.enabled, .bootstrap]

def clear : ProcessorFlags := ⟨0⟩

/-- Whether `flag` is set. -/
def get (flags : ProcessorFlags) (flag : Flag) : Bool :=
  flags.image.getLsbD flag.bit

/-- The flags with `flag` written. -/
def set (flags : ProcessorFlags) (flag : Flag) (on : Bool) : ProcessorFlags :=
  ⟨withBit flags.image flag.bit on⟩

/-- Whether the processor may be used. -/
def enabled (flags : ProcessorFlags) : Bool := flags.get .enabled

/-- Whether the system boots on the processor. -/
def bootstrap (flags : ProcessorFlags) : Bool := flags.get .bootstrap

/-- Writes flags one after the other. -/
def writeAll (flags : ProcessorFlags) (writes : List (Flag × Bool)) : ProcessorFlags :=
  writes.foldl (fun flags write => flags.set write.1 write.2) flags

end ProcessorFlags

end EarlyBoot.Register

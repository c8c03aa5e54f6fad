import EarlyBoot.Register.Image

/-!
# `EarlyBoot.Register.Rflags`: the flags register of x86-64

Most flags are single bits; the input/output privilege level takes two. Bit 1
is always set, and bits 3, 5, 15, 17 and those from 22 on are fixed at zero.
None of them has a name here, so writing flags never changes them.
-/

set_option autoImplicit false

namespace EarlyBoot.Register

/-- The flags register. -/
structure Rflags where
  image : BitVec 64
  deriving DecidableEq, Repr

namespace Rflags

/-- A named single-bit flag. -/
inductive Flag where
  | carry
  | parity
  | adjust
  | zero
  | sign
  | trap
  | interruptEnable
  | direction
  | overflow
  | nestedTask
  | resume
  | alignmentCheck
  | virtualInterrupt
  | virtualInterruptPending
  | identification
  deriving DecidableEq, Repr

def Flag.bit : Flag → Nat
  | .carry                   => 0
  | .parity                  => 2
  | .adjust                  => 4
  | .zero                    => 6
  | .sign                    => 7
  | .trap                    => 8
  | .interruptEnable         => 9
  | .direction               => 10
  | .overflow                => 11
  | .nestedTask              => 14
  | .resume                  => 16
  | .alignmentCheck          => 18
  | .virtualInterrupt        => 19
  | .virtualInterruptPending => 20
  | .identification          => 21

def Flag.name : Flag → String
  | .carry                   => "carry"
  | .parity                  => "parity"
  | .adjust                  => "adjust"
  | .zero                    => "zero"
  | .sign                    => "sign"
  | .trap                    => "trap"
  | .interruptEnable         => "interrupt_enable"
  | .direction               => "direction"
  | .overflow                => "overflow"
  | .nestedTask              => "nested_task"
  | .resume                  => "resume"
  | .alignmentCheck          => "alignment_check"
  | .virtualInterrupt        => "virtual_interrupt"
  | .virtualInterruptPending => "virtual_interrupt_pending"
  | .identification          => "id"

/-- All flags, in order of their bits. -/
def Flag.all : List Flag :=
  [.carry, .parity, .adjust, .zero, .sign, .trap, .interruptEnable, .direction, .overflow,
    .nestedTask, .resume, .alignmentCheck, .virtualInterrupt, .virtualInterruptPending,
    .identification]

/-- No flag set: only the bit that is always set. -/
def clear : Rflags := ⟨2⟩

def get (flags : Rflags) (flag : Flag) : Bool :=
  flags.image.getLsbD flag.bit

def set (flags : Rflags) (flag : Flag) (on : Bool) : Rflags :=
  ⟨withBit flags.image flag.bit on⟩

/-- The flags that are set, in order of their bits. -/
def raised (flags : Rflags) : List Flag :=
  Flag.all.filter flags.get

/-- Lower bit of the input/output privilege level. -/
def privilegeBit : Nat := 12

/-- The input/output privilege level. -/
def privilege (flags : Rflags) : Nat :=
  (flags.image.getLsbD privilegeBit).toNat + 2 * (flags.image.getLsbD (privilegeBit + 1)).toNat

/-- The register with the input/output privilege level written; a level above three
is refused. -/
def setPrivilege? (flags : Rflags) (level : Nat) : Option Rflags :=
  if level < 4 then
    some ⟨withBit (withBit flags.image privilegeBit (level.testBit 0)) (privilegeBit + 1)
      (level.testBit 1)⟩
  else
    none

/-- A field and what is written to it. -/
inductive Write where
  | flag (flag : Flag) (on : Bool)
  | privilege (level : Nat)
  deriving DecidableEq, Repr

/-- Carries out a write; one that is refused changes nothing. -/
def write (flags : Rflags) : Write → Rflags
  | .flag flag on    => flags.set flag on
  | .privilege level => (flags.setPrivilege? level).getD flags

/-- Carries out writes one after the other. -/
def writeAll (flags : Rflags) (writes : List Write) : Rflags :=
  writes.foldl write flags

end Rflags

end EarlyBoot.Register

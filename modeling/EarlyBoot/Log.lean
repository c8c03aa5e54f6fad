/-!
# `EarlyBoot.Log`: log records

A log record carries a level, the name of the part that speaks and a message,
and is written as one line. A threshold lets through the levels up to the one it
names, or none. A computation that speaks gives back its value together with the
records that it made, oldest first.
-/

set_option autoImplicit false

namespace EarlyBoot.Log

/-- How urgent a record is. -/
inductive Level where
  | error
  | warn
  | info
  | debug
  | trace
  deriving DecidableEq, Repr

/-- The name that a line shows for its level. -/
def Level.name : Level → String
  | .error => "ERROR"
  | .warn  => "WARN"
  | .info  => "INFO"
  | .debug => "DEBUG"
  | .trace => "TRACE"

/-- Place of a level, the most urgent first. -/
def Level.rank : Level → Nat
  | .error => 1
  | .warn  => 2
  | .info  => 3
  | .debug => 4
  | .trace => 5

def Level.ofRank? : Nat → Option Level
  | 1 => some .error
  | 2 => some .warn
  | 3 => some .info
  | 4 => some .debug
  | 5 => some .trace
  | _ => none

/-- The least urgent level that is let through; nothing is, if there is none. -/
abbrev Threshold := Option Level

/-- Whether `level` is let through. -/
def Threshold.admits : Threshold → Level → Bool
  | none,       _     => false
  | some least, level => level.rank ≤ least.rank

structure Record where
  level : Level
  /-- The part that speaks. -/
  target : String
  message : String
  deriving DecidableEq, Repr

/-- The record as text, without the line feed that closes it. -/
def Record.line (r : Record) : String :=
  "[" ++ r.level.name ++ "] " ++ r.target ++ ": " ++ r.message

/-- A value together with the records made on the way to it, oldest first. -/
structure Logged (α : Type) where
  value : α
  records : Array Record := #[]

end EarlyBoot.Log

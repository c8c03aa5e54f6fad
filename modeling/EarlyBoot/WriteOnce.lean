/-!
# `EarlyBoot.WriteOnce`: a cell that is filled at most once

The cell is empty, being written, or ready. Filling it takes three steps: the
cell is reserved, which only an empty one allows, the value is stored, and the
cell is declared ready. A reader never waits: it sees the value of a ready cell
and nothing otherwise.

Main statements:

* `get_of_set` : a filled cell shows its value;
* `set_of_not_empty` : only an empty cell can be filled, and a refused value is
  handed back.
-/

set_option autoImplicit false

namespace EarlyBoot

/-- How far a cell has been filled. -/
inductive Phase where
  | empty
  | writing
  | ready
  deriving DecidableEq, Repr

/-- A cell that is filled at most once. -/
structure WriteOnce (α : Type) where
  /-- How far the cell has been filled. -/
  phase : Phase := .empty
  slot : Option α := none
  deriving DecidableEq, Repr

namespace WriteOnce

variable {α : Type}

def empty : WriteOnce α := {}

/-- Reserves an empty cell for writing. -/
def reserve? (cell : WriteOnce α) : Option (WriteOnce α) :=
  if cell.phase = .empty then some { cell with phase := .writing } else none

def store (cell : WriteOnce α) (value : α) : WriteOnce α :=
  { cell with slot := some value }

/-- Declares the cell ready. -/
def publish (cell : WriteOnce α) : WriteOnce α :=
  { cell with phase := .ready }

/-- Fills the cell, or hands the value back. -/
def set (cell : WriteOnce α) (value : α) : Except α (WriteOnce α) :=
  match cell.reserve? with
  | some reserved => .ok (reserved.store value).publish
  | none         => .error value

def get? (cell : WriteOnce α) : Option α :=
  if cell.phase = .ready then cell.slot else none

/-- Take a `set` that succeeds. Then `get?` of the filled cell returns the value that was set. -/
theorem get_of_set {cell filled : WriteOnce α} {value : α} (h : cell.set value = .ok filled) :
    filled.get? = some value := by
  unfold set at h
  split at h
  · simp only [Except.ok.injEq] at h
    subst h
    rfl
  · simp at h

/-- Take a cell that is filled, or that someone is filling. Then `set` fails and hands the value
back. -/
theorem set_of_not_empty {cell : WriteOnce α} (h : cell.phase ≠ .empty) (value : α) :
    cell.set value = .error value := by
  simp [set, reserve?, h]

end WriteOnce

end EarlyBoot

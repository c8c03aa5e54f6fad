import EarlyBoot.WriteOnce

/-!
# `EarlyBoot.WriteOnce.Interleaving`: many callers of one cell

A call that fills a cell takes three steps, and one that reads it takes two: it
looks at the phase first, and only if the cell is ready at the value. A run lets
any of the calls take its next step, in any order, and may leave some of them
unfinished for good. A call that finds no stored value behind a ready phase reads
garbage, which the theory of runs has to exclude.

Main statements:

* `step_of_done` : a call that is over does not change the cell;
* `run_append` : a run goes on where it was left.
-/

set_option autoImplicit false

namespace EarlyBoot.WriteOnce

variable {α : Type}

/-- How far a call has come. -/
inductive Call (α : Type) where
  /-- It is about to reserve the cell for a value. -/
  | reserving (value : α)
  /-- It has reserved the cell and is about to store the value. -/
  | storing (value : α)
  /-- It has stored the value and is about to declare the cell ready. -/
  | publishing (value : α)
  /-- It has filled the cell. -/
  | filled (value : α)
  /-- It was refused and has the value back. -/
  | refused (value : α)
  /-- It is about to look at the phase. -/
  | looking
  /-- It has seen a ready cell and is about to read the value. -/
  | reading
  /-- It has seen no value, or this one. -/
  | answered (value : Option α)
  /-- It has read a value that was never stored. -/
  | garbage
  deriving DecidableEq, Repr

namespace Call

/-- Whether a call is over. -/
def isDone : Call α → Bool
  | .filled _ | .refused _ | .answered _ | .garbage => true
  | .reserving _ | .storing _ | .publishing _ | .looking | .reading => false

/-- Whether a call has not begun. -/
def isFresh : Call α → Bool
  | .reserving _ | .looking => true
  | _ => false

/-- The next step of a call on a cell. -/
def step (cell : WriteOnce α) : Call α → WriteOnce α × Call α
  | .reserving value =>
      match cell.reserve? with
      | some reserved => (reserved, .storing value)
      | none         => (cell, .refused value)
  | .storing value => (cell.store value, .publishing value)
  | .publishing value => (cell.publish, .filled value)
  | .looking => (cell, if cell.phase = .ready then .reading else .answered none)
  | .reading =>
      (cell,
        match cell.slot with
        | some value => .answered (some value)
        | none       => .garbage)
  | call => (cell, call)

/-- A call that is over takes no more steps: it changes neither the cell nor itself. -/
theorem step_of_done {cell : WriteOnce α} {call : Call α} (h : call.isDone = true) :
    call.step cell = (cell, call) := by
  cases call <;> simp_all [isDone, step]

end Call

/-- A cell and the calls on it. -/
structure Scene (α : Type) where
  cell : WriteOnce α
  calls : List (Call α)
  deriving DecidableEq, Repr

namespace Scene

/-- An empty cell and calls that have not begun. -/
def initial (calls : List (Call α)) : Scene α :=
  { cell := .empty, calls }

/-- Lets one of the calls take its next step. -/
def step (scene : Scene α) (i : Nat) : Scene α :=
  match scene.calls[i]? with
  | none      => scene
  | some call =>
      match call.step scene.cell with
      | (cell, call) => { cell, calls := scene.calls.set i call }

/-- Lets calls take steps in the order of a schedule. -/
def run (scene : Scene α) (schedule : List Nat) : Scene α :=
  schedule.foldl step scene

/-- A run goes on where it was left: two schedules in a row are one schedule. -/
theorem run_append (scene : Scene α) (first second : List Nat) :
    scene.run (first ++ second) = (scene.run first).run second := by
  simp [run]

/-- No step adds or removes a call, whichever call it is for. -/
@[simp]
theorem length_step (scene : Scene α) (i : Nat) :
    (scene.step i).calls.length = scene.calls.length := by
  unfold step
  split <;> simp

end Scene

end EarlyBoot.WriteOnce

import EarlyBoot.WriteOnce.Interleaving

/-!
# `EarlyBoot.Proofs.WriteOnce.Published`: at most one value is published

Any number of calls try to fill one cell and to read it. Their steps come in any order,
and some calls stop for good on the way, as one that panics does. Among them may be one
that has stored its value and not yet declared the cell ready.

The invariant has three parts (`Sound`). Each call fits the cell as it is: one that is
storing or publishing stands beside a cell in just that phase, and one that has seen a
value beside a ready cell with that value (`Call.Fits`). No two calls have won the cell.
And a cell that is not empty was won by somebody. As long as the cell is not ready, a call
that has not won fits any cell, so that the winner alone decides what the cell may become.

Main statements:

* `Call.origin_step`, `Call.cell_step` : what one step of a call can do;
* `Sound.step`, `Sound.run` : a step keeps the invariant, and so does a run;
* `Sound.cell_run_of_ready` : a ready cell never changes again;
* `run_published` : what a cell promises to its callers, at any moment of any run.
-/

set_option autoImplicit false

namespace EarlyBoot.WriteOnce

variable {α : Type}

namespace Call

/-- Whether the call has got the cell for itself. It may have filled it since. -/
def hasWon : Call α → Bool
  | .storing _ | .publishing _ | .filled _ => true
  | .reserving _ | .refused _ | .looking | .reading | .answered _ | .garbage => false

/-- What the call was before its first step. -/
def origin : Call α → Call α
  | .reserving value | .storing value | .publishing value | .filled value | .refused value =>
      .reserving value
  | .looking | .reading | .answered _ | .garbage => .looking

/-- The call can stand where it does beside this cell. -/
def Fits (cell : WriteOnce α) : Call α → Prop
  | .storing _              => cell = { phase := .writing, slot := none }
  | .publishing value       => cell = { phase := .writing, slot := some value }
  | .filled value           => cell = { phase := .ready, slot := some value }
  | .reading                => cell.phase = .ready
  | .answered (some value)  => cell = { phase := .ready, slot := some value }
  | .refused _              => cell.phase ≠ .empty
  | .garbage                => False
  | .reserving _ | .looking | .answered none => True

/-- A call that reads a ready cell, after `n` steps of its own. -/
def lookedUp (value : α) : (n : Nat) → Call α
  | 0     => .looking
  | 1     => .reading
  | _ + 2 => .answered (some value)

/-! ### Calls that have not begun -/

/-- A call that has not begun has not won the cell. -/
theorem hasWon_of_isFresh {call : Call α} (h : call.isFresh = true) : call.hasWon = false := by
  cases call with
  | reserving value => rfl
  | looking => rfl
  | _ => cases h

/-- A call that has not begun fits any cell. -/
theorem fits_of_isFresh {call : Call α} (h : call.isFresh = true) (cell : WriteOnce α) :
    call.Fits cell := by
  cases call with
  | reserving value => trivial
  | looking => trivial
  | _ => cases h

/-- A call that has not begun is its own origin. -/
theorem origin_of_isFresh {call : Call α} (h : call.isFresh = true) : call.origin = call := by
  cases call with
  | reserving value => rfl
  | looking => rfl
  | _ => cases h

/-! ### One step of a call -/

/-- No step makes another call of it: `origin` stays. -/
theorem origin_step (cell : WriteOnce α) (call : Call α) :
    (call.step cell).2.origin = call.origin := by
  cases call with
  | reserving value =>
      simp only [step]
      split <;> rfl
  | looking =>
      simp only [step]
      split <;> rfl
  | reading =>
      simp only [step]
      split <;> rfl
  | _ => rfl

/-- A call that has won the cell has won it after any step. -/
theorem hasWon_step (cell : WriteOnce α) {call : Call α} (h : call.hasWon = true) :
    (call.step cell).2.hasWon = true := by
  cases call with
  | storing value => rfl
  | publishing value => rfl
  | filled value => rfl
  | _ => cases h

/-- Only a call that has won, or wins by this very step, changes the cell. -/
theorem cell_step (cell : WriteOnce α) (call : Call α) :
    (call.step cell).1 = cell ∨ (call.step cell).2.hasWon = true := by
  cases call with
  | reserving value =>
      simp only [step]
      split
      · exact .inr rfl
      · exact .inl rfl
  | storing value => exact .inr rfl
  | publishing value => exact .inr rfl
  | _ => exact .inl rfl

/-- A writer that finds the cell empty reserves it. -/
theorem step_reserving_of_empty {cell : WriteOnce α} (h : cell.phase = .empty) (value : α) :
    (Call.reserving value).step cell = ({ cell with phase := .writing }, .storing value) := by
  simp only [step, reserve?, if_pos h]

/-- A writer that finds the cell taken is refused, and has its value back. -/
theorem step_reserving_of_not_empty {cell : WriteOnce α} (h : cell.phase ≠ .empty) (value : α) :
    (Call.reserving value).step cell = (cell, .refused value) := by
  simp only [step, reserve?, if_neg h]

/-! ### Calls that fit a cell -/

/-- A call that has won stands beside a cell that is not empty. -/
theorem Fits.phase_ne_empty {cell : WriteOnce α} {call : Call α} (h : call.Fits cell)
    (hwon : call.hasWon = true) : cell.phase ≠ .empty := by
  cases call with
  | storing value => cases h; simp
  | publishing value => cases h; simp
  | filled value => cases h; simp
  | _ => cases hwon

/-- A call that has won a ready cell has filled it with the value that is in it. -/
theorem Fits.eq_filled {cell : WriteOnce α} {call : Call α} (h : call.Fits cell)
    (hwon : call.hasWon = true) (hready : cell.phase = .ready) :
    ∃ value, call = .filled value ∧ cell = { phase := .ready, slot := some value } := by
  cases call with
  | storing value => cases h; cases hready
  | publishing value => cases h; cases hready
  | filled value => exact ⟨value, rfl, h⟩
  | _ => cases hwon

/-- Beside a cell that is not ready, a call that has not won knows no more of the cell than that it
is not empty. -/
theorem Fits.of_not_ready {cell other : WriteOnce α} {call : Call α} (h : call.Fits cell)
    (hwon : call.hasWon = false) (hready : cell.phase ≠ .ready) (hother : other.phase ≠ .empty) :
    call.Fits other := by
  -- Only a call that reads or has answered needs a value in the cell, and there was none before.
  cases call with
  | reserving value => trivial
  | refused value => exact hother
  | looking => trivial
  | reading => exact absurd h hready
  | answered answer =>
      cases answer with
      | none => trivial
      | some value => cases h; exact absurd rfl hready
  | garbage => exact h.elim
  | _ => cases hwon

/-- No call that fits a ready cell changes it. -/
theorem Fits.step_of_ready {cell : WriteOnce α} {call : Call α} (h : call.Fits cell)
    (hready : cell.phase = .ready) : (call.step cell).1 = cell := by
  cases call with
  | reserving value =>
      have hne : cell.phase ≠ .empty := by
        rw [hready]
        decide
      rw [step_reserving_of_not_empty hne]
  | storing value => cases h; cases hready
  | publishing value => cases h; cases hready
  | _ => rfl

/-- Beside a ready cell a reading call goes its two steps, and then stays. -/
theorem step_lookedUp {cell : WriteOnce α} {value : α}
    (h : cell = { phase := .ready, slot := some value }) (n : Nat) :
    (lookedUp value n).step cell = (cell, lookedUp value (n + 1)) := by
  subst h
  match n with
  | 0     => rfl
  | 1     => rfl
  | _ + 2 => rfl

end Call

namespace Scene

/-! ### One step of a scene -/

/-- A step of a call that is not there changes nothing. -/
theorem step_of_none {scene : Scene α} {i : Nat} (h : scene.calls[i]? = none) :
    scene.step i = scene := by
  rw [step, h]

/-- A step of a call changes the cell and that call. -/
theorem step_of_some {scene : Scene α} {i : Nat} {call : Call α}
    (h : scene.calls[i]? = some call) :
    scene.step i =
      { cell := (call.step scene.cell).1
        calls := scene.calls.set i (call.step scene.cell).2 } := by
  rw [step, h]

/-- What was written at `i` is there, and the other calls are where they were. -/
theorem getElem?_set_of_some {calls : List (Call α)} {i : Nat} {call : Call α}
    (h : calls[i]? = some call) (new : Call α) (j : Nat) :
    (calls.set i new)[j]? = if i = j then some new else calls[j]? := by
  have hi : i < calls.length := (List.getElem?_eq_some_iff.mp h).1
  rw [List.getElem?_set]
  by_cases hij : i = j
  · rw [if_pos hij, if_pos hij, if_pos hi]
  · rw [if_neg hij, if_neg hij]

/-- After a step the calls remember what they were. -/
theorem map_origin_step (scene : Scene α) (i : Nat) :
    (scene.step i).calls.map Call.origin = scene.calls.map Call.origin := by
  cases h : scene.calls[i]? with
  | none => rw [step_of_none h]
  | some call =>
      rw [step_of_some h, List.map_set, Call.origin_step]
      -- What is written back is what stood there.
      apply List.ext_getElem?
      intro j
      rw [List.getElem?_set]
      split
      · subst j
        have hi := (List.getElem?_eq_some_iff.mp h).1
        rw [List.length_map, if_pos hi, List.getElem?_map, h]
        rfl
      · rfl

/-- After a run the calls remember what they were. -/
theorem map_origin_run (scene : Scene α) (schedule : List Nat) :
    (scene.run schedule).calls.map Call.origin = scene.calls.map Call.origin := by
  induction schedule generalizing scene with
  | nil => rfl
  | cons i schedule ih => exact (ih (scene.step i)).trans (scene.map_origin_step i)

/-- Call number `i` has won the cell. -/
def Won (scene : Scene α) (i : Nat) : Prop :=
  ∃ call, scene.calls[i]? = some call ∧ call.hasWon = true

/-- A cell that was won stays won by the same call through a step. -/
theorem Won.step {scene : Scene α} {i : Nat} (h : scene.Won i) (k : Nat) :
    (scene.step k).Won i := by
  obtain ⟨call, hcall, hwon⟩ := h
  cases hk : scene.calls[k]? with
  | none =>
      rw [step_of_none hk]
      exact ⟨call, hcall, hwon⟩
  | some mover =>
      rw [step_of_some hk, Won]
      simp only [getElem?_set_of_some hk]
      -- Whether the call itself moves or another one, it stays the winner.
      by_cases hki : k = i
      · obtain rfl : call = mover := by
          rw [hki, hcall] at hk
          exact Option.some.inj hk
        exact ⟨_, if_pos hki, Call.hasWon_step _ hwon⟩
      · exact ⟨call, (if_neg hki).trans hcall, hwon⟩

/-- A cell that was won stays won by the same call through a run. -/
theorem Won.run {scene : Scene α} {i : Nat} (h : scene.Won i) (schedule : List Nat) :
    (scene.run schedule).Won i := by
  induction schedule generalizing scene with
  | nil => exact h
  | cons k schedule ih => exact ih (h.step k)

/-- A call whose step changes the cell has won it. -/
theorem won_of_cell_step_ne {scene : Scene α} {i : Nat} (h : (scene.step i).cell ≠ scene.cell) :
    (scene.step i).Won i := by
  cases hcall : scene.calls[i]? with
  | none =>
      rw [step_of_none hcall] at h
      exact absurd rfl h
  | some call =>
      rw [step_of_some hcall] at h ⊢
      refine ⟨_, (getElem?_set_of_some hcall _ i).trans (if_pos rfl), ?_⟩
      exact (Call.cell_step scene.cell call).resolve_left h

/-! ### The invariant -/

/-- The calls of a scene agree with its cell, and with each other. -/
structure Sound (scene : Scene α) : Prop where
  fits : ∀ {i : Nat} {call : Call α}, scene.calls[i]? = some call → call.Fits scene.cell
  /-- No two calls have won. -/
  won_unique : ∀ {i j : Nat}, scene.Won i → scene.Won j → i = j
  /-- A cell that is not empty was won. -/
  exists_won : scene.cell ≠ .empty → ∃ i, scene.Won i

/-- A scene of calls that have not begun, around an empty cell, is `Sound`. -/
theorem sound_initial {calls : List (Call α)} (hfresh : ∀ call ∈ calls, call.isFresh = true) :
    (initial calls).Sound := by
  have hnone : ∀ i, ¬ (initial calls).Won i := by
    rintro i ⟨call, hcall, hwon⟩
    rw [Call.hasWon_of_isFresh (hfresh call (List.mem_of_getElem? hcall))] at hwon
    cases hwon
  refine ⟨?_, fun hi => absurd hi (hnone _), fun hcell => absurd rfl hcell⟩
  intro i call hcall
  exact Call.fits_of_isFresh (hfresh call (List.mem_of_getElem? hcall)) _

namespace Sound

variable {scene : Scene α}

/-- The cell of a sound scene is empty if its phase says so: no value is left in the slot. -/
theorem eq_empty (h : scene.Sound) (hphase : scene.cell.phase = .empty) : scene.cell = .empty := by
  refine Classical.byContradiction fun hne => ?_
  obtain ⟨i, call, hcall, hwon⟩ := h.exists_won hne
  exact (h.fits hcall).phase_ne_empty hwon hphase

/-- In a sound scene a ready cell holds the value of the call that has won it. -/
theorem exists_filled (h : scene.Sound) (hready : scene.cell.phase = .ready) :
    ∃ (i : Nat) (value : α), scene.calls[i]? = some (.filled value) ∧
      scene.cell = { phase := .ready, slot := some value } := by
  have hne : scene.cell ≠ .empty := by
    intro hempty
    rw [hempty] at hready
    cases hready
  obtain ⟨i, call, hcall, hwon⟩ := h.exists_won hne
  obtain ⟨value, rfl, hcell⟩ := (h.fits hcall).eq_filled hwon hready
  exact ⟨i, value, hcall, hcell⟩

/-- Take a sound scene in which one call goes on, and the cell stays as it is. Then it is still
sound, if the call fits and has won as much as before. -/
theorem of_same_cell (h : scene.Sound) {i : Nat} {old new : Call α}
    (hold : scene.calls[i]? = some old) (hfits : new.Fits scene.cell)
    (hwon : new.hasWon = old.hasWon) :
    ({ scene with calls := scene.calls.set i new } : Scene α).Sound := by
  -- Nobody wins or loses by a step that leaves the cell alone.
  have hiff : ∀ j, ({ scene with calls := scene.calls.set i new } : Scene α).Won j ↔
      scene.Won j := by
    intro j
    simp only [Won, getElem?_set_of_some hold]
    by_cases hij : i = j
    · subst hij
      simp [hold, hwon]
    · simp [hij]
  refine ⟨?_, ?_, ?_⟩
  · intro j call hcall
    rw [getElem?_set_of_some hold] at hcall
    split at hcall
    · cases hcall
      exact hfits
    · exact h.fits hcall
  · intro j k hj hk
    exact h.won_unique ((hiff j).mp hj) ((hiff k).mp hk)
  · intro hcell
    obtain ⟨j, hj⟩ := h.exists_won hcell
    exact ⟨j, (hiff j).mpr hj⟩

/-- Take a sound scene in which the one call that may win changes a cell that was not ready. Then it
is still sound: no other call knows enough of the cell to mind. -/
theorem of_winner (h : scene.Sound) {i : Nat} {old new : Call α} {cell : WriteOnce α}
    (hold : scene.calls[i]? = some old) (hothers : ∀ j, scene.Won j → j = i)
    (hready : scene.cell.phase ≠ .ready) (hfits : new.Fits cell) (hwon : new.hasWon = true) :
    ({ cell, calls := scene.calls.set i new } : Scene α).Sound := by
  have honly : ∀ j, ({ cell, calls := scene.calls.set i new } : Scene α).Won j → j = i := by
    rintro j ⟨call, hcall, hcallWon⟩
    rw [getElem?_set_of_some hold] at hcall
    split at hcall
    · exact Eq.symm ‹i = j›
    · exact hothers j ⟨call, hcall, hcallWon⟩
  refine ⟨?_, ?_, ?_⟩
  · intro j call hcall
    rw [getElem?_set_of_some hold] at hcall
    split at hcall
    · cases hcall
      exact hfits
    · rename_i hij
      have hnot : call.hasWon = false := by
        refine Bool.eq_false_iff.mpr fun hcallWon => hij ?_
        exact (hothers j ⟨call, hcall, hcallWon⟩).symm
      exact (h.fits hcall).of_not_ready hnot hready (hfits.phase_ne_empty hwon)
  · intro j k hj hk
    rw [honly j hj, honly k hk]
  · intro _
    exact ⟨i, new, (getElem?_set_of_some hold new i).trans (if_pos rfl), hwon⟩

/-- One step keeps the invariant: a sound scene is sound after a step of any call. There is one case
for each place in a `set` or a `get` that the call may be at. -/
theorem step (h : scene.Sound) (i : Nat) : (scene.step i).Sound := by
  cases hcall : scene.calls[i]? with
  | none => rwa [step_of_none hcall]
  | some call =>
      rw [step_of_some hcall]
      have hfits := h.fits hcall
      cases call with
      | reserving value =>
          by_cases hempty : scene.cell.phase = .empty
          · -- Nobody has won an empty cell, so this call does.
            rw [Call.step_reserving_of_empty hempty, h.eq_empty hempty]
            refine h.of_winner hcall ?_ (by rw [hempty]; decide) rfl rfl
            rintro j ⟨other, hother, hwon⟩
            exact absurd hempty ((h.fits hother).phase_ne_empty hwon)
          · rw [Call.step_reserving_of_not_empty hempty]
            exact h.of_same_cell hcall hempty rfl
      | storing value =>
          have hcell : scene.cell = { phase := .writing, slot := none } := hfits
          refine h.of_winner hcall (fun j hj => h.won_unique hj ⟨_, hcall, rfl⟩) ?_ ?_ rfl
          · simp [hcell]
          · rw [hcell]
            rfl
      | publishing value =>
          have hcell : scene.cell = { phase := .writing, slot := some value } := hfits
          refine h.of_winner hcall (fun j hj => h.won_unique hj ⟨_, hcall, rfl⟩) ?_ ?_ rfl
          · simp [hcell]
          · rw [hcell]
            rfl
      | looking =>
          by_cases hready : scene.cell.phase = .ready
          · simp only [Call.step, if_pos hready]
            exact h.of_same_cell hcall hready rfl
          · simp only [Call.step, if_neg hready]
            exact h.of_same_cell hcall trivial rfl
      | reading =>
          -- The cell is ready, so its slot has the value of the call that filled it.
          obtain ⟨k, value, -, hcell⟩ := h.exists_filled hfits
          have hslot : scene.cell.slot = some value := by rw [hcell]
          simp only [Call.step, hslot]
          exact h.of_same_cell hcall hcell rfl
      | garbage => exact hfits.elim
      | _ => exact h.of_same_cell hcall hfits rfl

/-- A run keeps the invariant, by `step` for each entry of the schedule. -/
theorem run (h : scene.Sound) (schedule : List Nat) : (scene.run schedule).Sound := by
  induction schedule generalizing scene with
  | nil => exact h
  | cons i schedule ih => exact ih (h.step i)

/-! ### A ready cell -/

/-- In a sound scene a step leaves a ready cell as it is. -/
theorem cell_step_of_ready (h : scene.Sound) (hready : scene.cell.phase = .ready) (i : Nat) :
    (scene.step i).cell = scene.cell := by
  cases hcall : scene.calls[i]? with
  | none => rw [step_of_none hcall]
  | some call =>
      rw [step_of_some hcall]
      exact (h.fits hcall).step_of_ready hready

/-- In a sound scene a ready cell never changes again. -/
theorem cell_run_of_ready (h : scene.Sound) (hready : scene.cell.phase = .ready)
    (schedule : List Nat) : (scene.run schedule).cell = scene.cell := by
  induction schedule generalizing scene with
  | nil => rfl
  | cons i schedule ih =>
      have hcell := h.cell_step_of_ready hready i
      exact (ih (h.step i) (hcell ▸ hready)).trans hcell

/-- How far a reading call beside a ready cell comes depends on its own steps only. -/
theorem getElem?_run_lookedUp (h : scene.Sound) {value : α}
    (hcell : scene.cell = { phase := .ready, slot := some value }) {j n : Nat}
    (hj : scene.calls[j]? = some (.lookedUp value n)) (schedule : List Nat) :
    (scene.run schedule).calls[j]? = some (.lookedUp value (n + schedule.count j)) := by
  induction schedule generalizing scene n with
  | nil => exact hj
  | cons i schedule ih =>
      have hready : scene.cell.phase = .ready := by rw [hcell]
      have hcell' := (h.cell_step_of_ready hready i).trans hcell
      rw [List.count_cons]
      by_cases hij : i = j
      · subst hij
        -- Its own step takes it one further.
        have hnext : (scene.step i).calls[i]? = some (.lookedUp value (n + 1)) := by
          rw [step_of_some hj, getElem?_set_of_some hj, if_pos rfl, Call.step_lookedUp hcell]
        have hrest := ih (h.step i) hcell' hnext
        rw [Nat.add_assoc, Nat.add_comm 1] at hrest
        rwa [if_pos (beq_self_eq_true i)]
      · have hsame : (scene.step i).calls[j]? = some (.lookedUp value n) := by
          cases hi : scene.calls[i]? with
          | none => rw [step_of_none hi, hj]
          | some mover => rw [step_of_some hi, getElem?_set_of_some hi, if_neg hij, hj]
        have hrest := ih (h.step i) hcell' hsame
        rwa [if_neg (by simpa using hij), Nat.add_zero]

end Sound

/-! ### What the callers can rely on -/

/-- What a cell promises at a moment of a run that began with `calls`. -/
structure Published (calls : List (Call α)) (scene : Scene α) : Prop where
  /-- At most one call gets the cell for itself, so that at most one fills it. -/
  won_unique : ∀ {i j : Nat}, scene.Won i → scene.Won j → i = j
  /-- A refused call has its own value back, and was refused because another call won. -/
  refused : ∀ {i : Nat} {value : α}, scene.calls[i]? = some (.refused value) →
    calls[i]? = some (.reserving value) ∧ ∃ j, j ≠ i ∧ scene.Won j
  /-- What a call is about to read has been stored, by the call that filled the cell. -/
  reading : ∀ {j : Nat}, scene.calls[j]? = some .reading →
    ∃ (i : Nat) (value : α), scene.calls[i]? = some (.filled value) ∧ scene.cell.slot = some value
  /-- No call has read what was never stored. -/
  not_garbage : Call.garbage ∉ scene.calls
  /-- A value that was seen is the one of the call that filled the cell. -/
  answered : ∀ {j : Nat} {value : α}, scene.calls[j]? = some (.answered (some value)) →
    ∃ i : Nat, calls[i]? = some (.reserving value) ∧ scene.calls[i]? = some (.filled value)

/-- A call of a scene goes back to the call that stood at its place at the start. -/
theorem getElem?_of_map_origin {calls : List (Call α)} {scene : Scene α}
    (h : scene.calls.map Call.origin = calls) {i : Nat} {call : Call α}
    (hcall : scene.calls[i]? = some call) : calls[i]? = some call.origin := by
  rw [← h, List.getElem?_map, hcall, Option.map_some]

/-- A sound scene is `Published`: at most one writer has won, the others have their own values back,
and what was read is what the winner wrote. -/
theorem Sound.published {calls : List (Call α)} {scene : Scene α} (h : scene.Sound)
    (horigin : scene.calls.map Call.origin = calls) : scene.Published calls where
  won_unique := h.won_unique
  refused := by
    intro i value hi
    -- A call is only refused by a cell that someone else has taken.
    have hne : scene.cell ≠ .empty := fun hempty => h.fits hi (by rw [hempty]; rfl)
    obtain ⟨j, hj⟩ := h.exists_won hne
    refine ⟨getElem?_of_map_origin horigin hi, j, ?_, hj⟩
    rintro rfl
    obtain ⟨call, hcall, hwon⟩ := hj
    rw [hi] at hcall
    cases hcall
    cases hwon
  reading := by
    intro j hj
    obtain ⟨i, value, hi, hcell⟩ := h.exists_filled (h.fits hj)
    exact ⟨i, value, hi, by rw [hcell]⟩
  not_garbage := by
    intro hmem
    obtain ⟨i, hi⟩ := List.mem_iff_getElem?.mp hmem
    exact h.fits hi
  answered := by
    intro j value hj
    -- The value that was seen is still in the cell, where the winner put it.
    have hcell : scene.cell = { phase := .ready, slot := some value } := h.fits hj
    obtain ⟨i, other, hi, hcell'⟩ := h.exists_filled (by rw [hcell])
    rw [hcell] at hcell'
    cases hcell'
    exact ⟨i, getElem?_of_map_origin horigin hi, hi⟩

/-- Take any number of calls on an empty cell, none of them begun, and let them take their steps in
any order, up to a moment `before` and on to a moment `after`. Then the scene is `Published`: at
most one call fills the cell, the others that tried have their own values back, and no call reads
the cell before a value was stored. Once a call has seen a value the cell stays as it is, and a call
that has not begun by then sees the same value by its own two steps. -/
theorem run_published {calls : List (Call α)} (hfresh : ∀ call ∈ calls, call.isFresh = true)
    (first second : List Nat) :
    let before := (initial calls).run first
    let after := before.run second
    after.Published calls ∧
    (∀ i value, ((before.step i).run second).calls[i]? = some (.refused value) →
      (before.step i).cell = before.cell) ∧
    ∀ (i : Nat) (value : α), before.calls[i]? = some (.answered (some value)) →
      after.cell = before.cell ∧
      ∀ j : Nat, before.calls[j]? = some .looking →
        (2 ≤ second.count j → after.calls[j]? = some (.answered (some value))) ∧
        ∀ answer, after.calls[j]? = some (.answered answer) → answer = some value := by
  intro before after
  have hbefore : before.Sound := (sound_initial hfresh).run first
  have horigin : after.calls.map Call.origin = calls := by
    calc after.calls.map Call.origin
        = (initial calls).calls.map Call.origin := by rw [map_origin_run, map_origin_run]
      _ = calls.map (fun call => call) :=
          List.map_congr_left fun call hcall => Call.origin_of_isFresh (hfresh call hcall)
      _ = calls := List.map_id' calls
  refine ⟨(hbefore.run second).published horigin, ?_, ?_⟩
  · intro i value hrefused
    refine Classical.byContradiction fun hchanged => ?_
    -- A call that changed the cell has won it for good.
    obtain ⟨call, hcall, hwon⟩ := (won_of_cell_step_ne hchanged).run second
    rw [hrefused] at hcall
    cases hcall
    cases hwon
  · intro i value hi
    have hcell : before.cell = { phase := .ready, slot := some value } := hbefore.fits hi
    refine ⟨hbefore.cell_run_of_ready (by rw [hcell]) second, ?_⟩
    intro j hj
    have hlater : after.calls[j]? = some (.lookedUp value (0 + second.count j)) :=
      hbefore.getElem?_run_lookedUp hcell hj second
    rw [Nat.zero_add] at hlater
    rw [hlater]
    match second.count j with
    | 0     => simp [Call.lookedUp]
    | 1     => simp [Call.lookedUp]
    | _ + 2 => simp [Call.lookedUp]

/-- Two calls that have a value for the cell, and three that want to see one. -/
def crowd : List (Call Nat) :=
  [.reserving 7, .looking, .reserving 9, .looking, .looking]

/-- Take `crowd`, and let a reader and a second writer come between the storing of a value and the
moment at which the cell is declared ready. Then, by `run_published`, the reader sees nothing, the
writer is refused, and two later readers see the value. -/
theorem run_published_overtaken :
    (∀ call ∈ crowd, call.isFresh = true) ∧
    ((initial crowd).run [0, 0, 1, 2]).calls =
      [.publishing 7, .answered none, .refused 9, .looking, .looking] ∧
    ((initial crowd).run [0, 0, 1, 2, 0, 3, 3]).calls[3]? = some (.answered (some 7)) ∧
    (((initial crowd).run [0, 0, 1, 2, 0, 3, 3]).run [4, 4]).calls[4]? =
      some (.answered (some 7)) := by
  have hfresh : ∀ call ∈ crowd, call.isFresh = true := by decide
  have hseen : ((initial crowd).run [0, 0, 1, 2, 0, 3, 3]).calls[3]? =
      some (.answered (some 7)) := by decide
  obtain ⟨-, -, hsettled⟩ := run_published hfresh [0, 0, 1, 2, 0, 3, 3] [4, 4]
  obtain ⟨-, hlater⟩ := hsettled 3 7 hseen
  obtain ⟨htwo, -⟩ := hlater 4 (by decide)
  exact ⟨hfresh, by decide, hseen, htwo (by decide)⟩

end Scene

end EarlyBoot.WriteOnce

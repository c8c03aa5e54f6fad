import EarlyBoot.Iteration

/-!
# `EarlyBoot.Proofs.Iteration.Draws`: a cursor that knows how much it has left

A cursor over a table counts the items that it has handed out, and stops at the count that
it was made with. Its states are then numbered: state `i` hands out item `i` and goes on
to state `i + 1`, and the last state hands out nothing and stays. All that can be asked of
such a cursor follows from these numbers, at every point of its way and however often it
is asked (`Draws`).

Main statements:

* `after_eq_state` : after `n` steps a cursor is in state `n`, or in its last one;
* `draws_of_states` : a cursor with numbered states draws its items, and no others;
* `exists_draws` : so does one that finds something at each place below its count.
-/

set_option autoImplicit false

namespace EarlyBoot.Iteration

variable {σ α : Type}

/-- The state after `n` steps, whatever they hand out. -/
def after (next : σ → Option α × σ) (start : σ) : (n : Nat) → σ
  | 0     => start
  | n + 1 => (next (after next start n)).2

/-- From `start` on a cursor hands out these items in order and then nothing any more, and
`left` tells at each point how many are still to come. -/
structure Draws (next : σ → Option α × σ) (left : σ → Nat) (start : σ) (items : List α) :
    Prop where
  /-- Step number `n` hands out item number `n`. -/
  next_after : ∀ n, (next (after next start n)).1 = items[n]?
  /-- No more is left than was not handed out yet. -/
  left_after : ∀ n, left (after next start n) = items.length - n
  /-- That much does come, if enough steps are taken. -/
  collect_after : ∀ n m, collect next m (after next start n) = (items.drop n).take m

/-- Suppose that `find?` finds something at each of the first `count` places. Then these finds are a
list of `count` items. -/
theorem exists_items {find? : Nat → Option α} {count : Nat}
    (h : ∀ i < count, ∃ a, find? i = some a) :
    ∃ items : List α, items.length = count ∧
      ∀ i (hi : i < items.length), find? i = some items[i] := by
  induction count with
  | zero => exact ⟨[], rfl, fun i hi => absurd hi (Nat.not_lt_zero i)⟩
  | succ count ih =>
      obtain ⟨items, hlength, hitems⟩ := ih fun i hi => h i (Nat.lt_succ_of_lt hi)
      obtain ⟨last, hlast⟩ := h count (Nat.lt_succ_self count)
      -- The item at `count` goes behind those below it.
      refine ⟨items ++ [last], by rw [List.length_append, hlength]; rfl, ?_⟩
      intro i hi
      rw [List.length_append, List.length_singleton] at hi
      rcases Nat.lt_or_eq_of_le (Nat.le_of_lt_succ hi) with hlt | heq
      · rw [List.getElem_append_left hlt]
        exact hitems i hlt
      · subst heq
        rw [List.getElem_concat_length rfl, hlength]
        exact hlast

section States

variable {next : σ → Option α × σ} {left : σ → Nat} {items : List α} {state : Nat → σ}

/-- After `n` steps a cursor with numbered states is in state `n`, or in its last one. -/
theorem after_eq_state
    (hstep : ∀ i (hi : i < items.length), next (state i) = (some items[i], state (i + 1)))
    (hstop : next (state items.length) = (none, state items.length)) (n : Nat) :
    after next (state 0) n = state (min n items.length) := by
  induction n with
  | zero => rw [Nat.zero_min]; rfl
  | succ n ih =>
      rw [after, ih]
      rcases Nat.lt_or_ge n items.length with hlt | hge
      · rw [Nat.min_eq_left (Nat.le_of_lt hlt), Nat.min_eq_left hlt, hstep n hlt]
      · rw [Nat.min_eq_right hge, Nat.min_eq_right (Nat.le_succ_of_le hge), hstop]

/-- From state `i` on, at most `m` steps hand out the next `m` items. The induction is on `m`. -/
theorem collect_state
    (hstep : ∀ i (hi : i < items.length), next (state i) = (some items[i], state (i + 1)))
    (hstop : next (state items.length) = (none, state items.length)) (m : Nat) {i : Nat}
    (hi : i ≤ items.length) : collect next m (state i) = (items.drop i).take m := by
  induction m generalizing i with
  | zero => rw [collect_zero, List.take_zero]
  | succ m ih =>
      rw [collect_succ]
      rcases Nat.lt_or_eq_of_le hi with hlt | heq
      · rw [hstep i hlt, List.drop_eq_getElem_cons hlt, List.take_succ_cons, ← ih hlt]
      · subst heq
        rw [hstop, List.drop_length, List.take_nil]

variable (left) in
/-- Take a cursor with numbered states that hands out item `i` in state `i` and nothing in the last.
Then it `Draws` its items: in order, each once, with an exact count of what is left, and nothing
after. -/
theorem draws_of_states
    (hstep : ∀ i (hi : i < items.length), next (state i) = (some items[i], state (i + 1)))
    (hstop : next (state items.length) = (none, state items.length))
    (hleft : ∀ i ≤ items.length, left (state i) = items.length - i) :
    Draws next left (state 0) items where
  next_after := by
    intro n
    -- After more draws than there are items the state stays what it was at the end.
    rw [after_eq_state hstep hstop]
    rcases Nat.lt_or_ge n items.length with hlt | hge
    · rw [Nat.min_eq_left (Nat.le_of_lt hlt), hstep n hlt, List.getElem?_eq_getElem hlt]
    · rw [Nat.min_eq_right hge, hstop, List.getElem?_eq_none hge]
  left_after := by
    intro n
    rw [after_eq_state hstep hstop, hleft _ (Nat.min_le_right n _)]
    omega
  collect_after := by
    intro n m
    rw [after_eq_state hstep hstop, collect_state hstep hstop m (Nat.min_le_right n _)]
    rcases Nat.lt_or_ge n items.length with hlt | hge
    · rw [Nat.min_eq_left (Nat.le_of_lt hlt)]
    · rw [Nat.min_eq_right hge, List.drop_length, List.drop_of_length_le hge]

variable (next left state) in
/-- Take a cursor that looks at place `i` in state `i`, and suppose that `find?` finds something at
each place below the count. Then there is a list of these finds, and the cursor `Draws` it. -/
theorem exists_draws {find? : Nat → Option α} {count : Nat}
    (hfind : ∀ i < count, ∃ a, find? i = some a)
    (hstep : ∀ i a, i < count → find? i = some a → next (state i) = (some a, state (i + 1)))
    (hstop : next (state count) = (none, state count))
    (hleft : ∀ i ≤ count, left (state i) = count - i) :
    ∃ items : List α, items.length = count ∧
      (∀ i (hi : i < items.length), find? i = some items[i]) ∧
      Draws next left (state 0) items ∧ ∀ n, after next (state 0) n = state (min n count) := by
  obtain ⟨items, rfl, hitems⟩ := exists_items hfind
  have hstep' : ∀ i (hi : i < items.length), next (state i) = (some items[i], state (i + 1)) :=
    fun i hi => hstep i items[i] hi (hitems i hi)
  exact ⟨items, rfl, hitems, draws_of_states left hstep' hstop hleft, after_eq_state hstep' hstop⟩

end States

/-- All items of a cursor are handed out by any number of steps that is large enough. -/
theorem Draws.collect_eq {next : σ → Option α × σ} {left : σ → Nat} {start : σ} {items : List α}
    (h : Draws next left start items) {m : Nat} (hm : items.length ≤ m) :
    collect next m start = items := by
  have hall := h.collect_after 0 m
  rwa [List.drop_zero, List.take_of_length_le hm] at hall

end EarlyBoot.Iteration

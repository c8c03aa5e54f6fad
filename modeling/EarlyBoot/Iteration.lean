/-!
# `EarlyBoot.Iteration`: drawing items from a cursor

A cursor is a state with a `next` function, which hands out an item or nothing
and always gives back the next state. `collect next n s` is the list of items
that at most `n` steps from `s` hand out; it ends at the first step that hands
out nothing. The items pile up in an array, so that long lists need no stack;
`collect_succ` is the plain recursion.

Main statements:

* `collect_zero`, `collect_succ` : the defining equations of the list;
* `collect_take` : fewer steps hand out a shorter list that starts alike.
-/

set_option autoImplicit false

namespace EarlyBoot.Iteration

variable {σ α : Type}

/-- The items that at most `n` steps from `s` hand out, behind those of `acc`. -/
def collectInto (next : σ → Option α × σ) : (n : Nat) → (s : σ) → (acc : Array α) → Array α
  | 0,     _, acc => acc
  | n + 1, s, acc =>
      match next s with
      | (none, _)    => acc
      | (some a, s') => collectInto next n s' (acc.push a)

/-- The items that at most `n` steps from `s` hand out. -/
def collect (next : σ → Option α × σ) (n : Nat) (s : σ) : List α :=
  (collectInto next n s #[]).toList

/-- The accumulator only holds what was handed out before: `collectInto` from `acc` is the list of
`acc` followed by `collect` from the same state. -/
theorem toList_collectInto (next : σ → Option α × σ) (n : Nat) (s : σ) (acc : Array α) :
    (collectInto next n s acc).toList = acc.toList ++ collect next n s := by
  induction n generalizing s acc with
  | zero => simp [collect, collectInto]
  | succ n ih =>
      simp only [collect, collectInto]
      split
      · simp
      · rw [ih, ih]
        simp

/-- Without a step no item is handed out. -/
@[simp]
theorem collect_zero (next : σ → Option α × σ) (s : σ) : collect next 0 s = [] := rfl

/-- One step of `collect`: if `next` hands out nothing, the list ends; if it hands out an item, the
list starts with it and goes on from the next state. -/
theorem collect_succ (next : σ → Option α × σ) (n : Nat) (s : σ) :
    collect next (n + 1) s =
      match next s with
      | (none, _)    => []
      | (some a, s') => a :: collect next n s' := by
  simp only [collect, collectInto]
  split
  · rfl
  · rw [toList_collectInto]
    simp [collect]

/-- Fewer steps hand out a shorter list that starts alike: the first `m` items of `collect next n`
are those of `collect next m`. -/
theorem collect_take (next : σ → Option α × σ) (m n : Nat) (s : σ) (h : m ≤ n) :
    (collect next n s).take m = collect next m s := by
  induction m generalizing n s with
  | zero => simp
  | succ m ih =>
      obtain ⟨n, rfl⟩ : ∃ k, n = k + 1 := ⟨n - 1, by omega⟩
      rw [collect_succ, collect_succ]
      split
      · simp
      · rename_i s' _
        rw [List.take_succ_cons, ih n s' (by omega)]

end EarlyBoot.Iteration

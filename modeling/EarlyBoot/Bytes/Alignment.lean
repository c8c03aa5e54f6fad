/-!
# `EarlyBoot.Bytes.Alignment`: rounding up to the tag alignment

Tags start at multiples of eight bytes from the start of their region.
`aligned n` is the least such multiple that is not below `n`; `aligned32? n`
computes it in 32-bit arithmetic, where the rounding may not fit.

Main statements:

* `aligned_mod`, `le_aligned`, `aligned_lt` : the least multiple of eight not below `n`;
* `aligned32?_eq_some` : when the rounding fits in 32 bits.
-/

set_option autoImplicit false

namespace EarlyBoot.Bytes

/-- Alignment of every tag, relative to the start of its region. -/
def tagAlignment : Nat := 8

/-- The least multiple of `tagAlignment` that is not below `n`. -/
def aligned (n : Nat) : Nat :=
  (n + (tagAlignment - 1)) / tagAlignment * tagAlignment

/-- `aligned n` computed in 32-bit arithmetic: nothing if the rounding overflows. -/
def aligned32? (n : UInt32) : Option Nat :=
  if n.toNat + (tagAlignment - 1) < UInt32.size then some (aligned n.toNat) else none

/-- The result of `aligned` is a multiple of `tagAlignment`. -/
theorem aligned_mod (n : Nat) : aligned n % 8 = 0 := by
  simp [aligned, tagAlignment]

/-- Rounding with `aligned` never goes down. -/
theorem le_aligned (n : Nat) : n ≤ aligned n := by
  simp only [aligned, tagAlignment]
  omega

/-- Rounding with `aligned` adds fewer than eight bytes. With `aligned_mod` and `le_aligned` this
makes it the least multiple of eight that is not below `n`. -/
theorem aligned_lt (n : Nat) : aligned n < n + 8 := by
  simp only [aligned, tagAlignment]
  omega

/-- Whole tags can be set aside before rounding: a summand that is a multiple of eight moves out of
`aligned`. -/
theorem aligned_add_of_mod_eq_zero {m : Nat} (h : m % 8 = 0) (n : Nat) :
    aligned (m + n) = m + aligned n := by
  simp only [aligned, tagAlignment]
  omega

/-- Rounding up does not go beyond a multiple of eight: if `m` is one and `n` is at most `m`, then
`aligned n` is at most `m` as well. -/
theorem aligned_le_of_mod_eq_zero {n m : Nat} (h : m % 8 = 0) (hle : n ≤ m) : aligned n ≤ m := by
  simp only [aligned, tagAlignment]
  omega

/-- Rounding in 32 bits works up to `2 ^ 32 - 8`. Below that `aligned32?` gives the value of
`aligned`, above it gives nothing. -/
theorem aligned32?_eq_some {n : UInt32} {m : Nat} :
    aligned32? n = some m ↔ n.toNat + 7 < UInt32.size ∧ aligned n.toNat = m := by
  unfold aligned32? tagAlignment
  split <;> rename_i h
  · exact ⟨fun he => ⟨h, Option.some.inj he⟩, fun he => congrArg some he.2⟩
  · exact ⟨fun he => (nomatch he), fun he => absurd he.1 h⟩

end EarlyBoot.Bytes

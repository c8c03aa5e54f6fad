import EarlyBoot.Memory.Range

/-!
# `EarlyBoot.Memory.Usable`: how much memory is free

Usable memory is the sum of the lengths of the usable ranges. A range that would
take the sum past 64 bits is left out, and later ones still count. `kept` lists
the lengths that do count.

Main statements:

* `toNat_keepingSum` : the sum of two lengths, or the first alone where it overflows;
* `toNat_total` : the total is the true sum of the lengths that count;
* `kept_sublist` : those are some of the lengths, in order.
-/

set_option autoImplicit false

namespace EarlyBoot.Memory

/-- `total + amount`, or `total` alone where the sum does not fit in 64 bits. -/
def keepingSum (total amount : UInt64) : UInt64 :=
  if total.toNat + amount.toNat < UInt64.size then total + amount else total

/-- Lengths added to a total one after the other. -/
def total (start : UInt64) (lengths : List UInt64) : UInt64 :=
  lengths.foldl keepingSum start

/-- One step of `total`: the first length goes into the sum with `keepingSum`, and the rest is added
to what comes out. -/
theorem total_cons (start amount : UInt64) (lengths : List UInt64) :
    total start (amount :: lengths) = total (keepingSum start amount) lengths := rfl

/-- The lengths of the usable ranges. -/
def usableLengths (ranges : List MemoryRange) : List UInt64 :=
  (ranges.filter (·.kind.isUsable)).map MemoryRange.length

/-- The lengths of the usable ranges, added up. -/
def usableBytes (ranges : List MemoryRange) : UInt64 :=
  total 0 (usableLengths ranges)

def mebibyte : Nat := 1024 * 1024

/-- Usable memory in whole mebibytes, at most `2 ^ 32 - 1`. -/
def usableMebibytes (ranges : List MemoryRange) : UInt32 :=
  UInt32.ofNat (min ((usableBytes ranges).toNat / mebibyte) (UInt32.size - 1))

/-- The lengths that count when they are added to a total. -/
def kept (start : UInt64) : List UInt64 → List UInt64
  | []              => []
  | amount :: lengths =>
      if start.toNat + amount.toNat < UInt64.size then amount :: kept (start + amount) lengths
      else kept start lengths

/-- Take two words whose sum stays below `2 ^ 64`. Then their sum as words is their sum as
numbers. -/
theorem toNat_add_of_lt {a b : UInt64} (h : a.toNat + b.toNat < UInt64.size) :
    (a + b).toNat = a.toNat + b.toNat := by
  rw [UInt64.toNat_add]
  exact Nat.mod_eq_of_lt h

/-- The word `keepingSum` is the true sum where that fits in 64 bits. Where it does not fit, the
amount is left out and the total stays. -/
theorem toNat_keepingSum (total amount : UInt64) :
    (keepingSum total amount).toNat =
      if total.toNat + amount.toNat < UInt64.size then total.toNat + amount.toNat
      else total.toNat := by
  unfold keepingSum
  split
  · rename_i h
    exact toNat_add_of_lt h
  · rfl

/-- The lengths that count are some of the lengths, in the order of the list. -/
theorem kept_sublist (start : UInt64) (lengths : List UInt64) :
    (kept start lengths).Sublist lengths := by
  induction lengths generalizing start with
  | nil => exact .slnil
  | cons amount lengths ih =>
      rw [kept]
      split
      · exact (ih _).cons_cons amount
      · exact (ih _).cons amount

/-- The number that `total` computes in 64-bit arithmetic is the true sum of the lengths that `kept`
keeps. The other lengths add nothing. -/
theorem toNat_total (start : UInt64) (lengths : List UInt64) :
    (total start lengths).toNat =
      (kept start lengths).foldl (fun sum amount => sum + amount.toNat) start.toNat := by
  induction lengths generalizing start with
  | nil => rfl
  | cons amount lengths ih =>
      rw [total_cons, kept]
      split <;> rename_i h
      · have hsum : keepingSum start amount = start + amount := if_pos h
        rw [hsum, ih, toNat_add_of_lt h, List.foldl_cons]
      · have hsum : keepingSum start amount = start := if_neg h
        rw [hsum, ih]

end EarlyBoot.Memory

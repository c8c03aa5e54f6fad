import EarlyBoot.Record.MemoryMap
import Mathlib.Algebra.Ring.Nat

/-!
# `EarlyBoot.Proofs.Memory.Counted`: which ranges count as usable memory

The lengths of the usable ranges are added to a total of 64 bits one after the other, and
a length that does not fit is left out. `counted` and `leftOut` divide the ranges
accordingly. The total never shrinks, so what did not fit when its turn came does not fit
the final total either: nothing was left out for nothing. If all lengths fit together,
none is left out, and their order does not matter.

Main statements:

* `toNat_usableBytes` : usable memory is the true sum of the usable ranges that count;
* `counted_append_leftOut_perm` : each range counts or is left out;
* `lt_of_mem_leftOut` : what is left out does not fit the final total;
* `counted_of_fit`, `toNat_usableBytes_of_fit` : nothing is left out if everything fits;
* `toNat_total_replicate` : the total of equal lengths;
* `MemoryMap.usableBytes_exact` : all of this about the usable memory of a map.
-/

set_option autoImplicit false

namespace EarlyBoot

namespace Memory

/-- The true sum of the lengths of ranges. -/
def lengthSum (ranges : List MemoryRange) : Nat :=
  (ranges.map fun range => range.length.toNat).sum

/-- The ranges that count when their lengths are added to a total. -/
def counted (start : UInt64) : List MemoryRange → List MemoryRange
  | []              => []
  | range :: ranges =>
      if start.toNat + range.length.toNat < UInt64.size then
        range :: counted (start + range.length) ranges
      else counted start ranges

/-- The ranges whose lengths do not fit when their turn comes. -/
def leftOut (start : UInt64) : List MemoryRange → List MemoryRange
  | []              => []
  | range :: ranges =>
      if start.toNat + range.length.toNat < UInt64.size then leftOut (start + range.length) ranges
      else range :: leftOut start ranges

/-! ### Sums -/

/-- The true sum of the lengths, with one range more in front. -/
theorem lengthSum_cons (range : MemoryRange) (ranges : List MemoryRange) :
    lengthSum (range :: ranges) = range.length.toNat + lengthSum ranges := by
  rw [lengthSum, List.map_cons, List.sum_cons]
  rfl

/-- The true sum of two lists is the sum of theirs. -/
theorem lengthSum_append (front back : List MemoryRange) :
    lengthSum (front ++ back) = lengthSum front + lengthSum back := by
  rw [lengthSum, List.map_append, List.sum_append]
  rfl

/-- The order of the ranges does not matter to the true sum. -/
theorem lengthSum_perm {ranges others : List MemoryRange} (h : ranges.Perm others) :
    lengthSum ranges = lengthSum others :=
  (h.map _).sum_nat

/-- The lengths that `kept` keeps are those of the ranges that `counted` keeps. -/
theorem map_length_counted (start : UInt64) (ranges : List MemoryRange) :
    (counted start ranges).map MemoryRange.length = kept start (ranges.map MemoryRange.length) := by
  induction ranges generalizing start with
  | nil => rfl
  | cons range ranges ih =>
      rw [counted, List.map_cons, kept]
      split
      · rw [List.map_cons, ih]
      · exact ih start

/-- Lengths that are added one after the other, without a bound, add their true sum. -/
theorem foldl_lengths (ranges : List MemoryRange) (start : Nat) :
    (ranges.map MemoryRange.length).foldl (fun sum amount => sum + amount.toNat) start =
      start + lengthSum ranges := by
  induction ranges generalizing start with
  | nil => rfl
  | cons range ranges ih =>
      rw [List.map_cons, List.foldl_cons, ih, lengthSum_cons, Nat.add_assoc]

/-- The total of the lengths is the true sum over the ranges that `counted` keeps, added to the
start. -/
theorem toNat_total_lengths (start : UInt64) (ranges : List MemoryRange) :
    (total start (ranges.map MemoryRange.length)).toNat =
      start.toNat + lengthSum (counted start ranges) := by
  rw [toNat_total, ← map_length_counted, foldl_lengths]

/-- Usable memory is the true sum of the usable ranges that `counted` keeps. -/
theorem toNat_usableBytes (ranges : List MemoryRange) :
    (usableBytes ranges).toNat = lengthSum (counted 0 (ranges.filter (·.kind.isUsable))) := by
  have htotal := toNat_total_lengths 0 (ranges.filter (·.kind.isUsable))
  rwa [UInt64.toNat_zero, Nat.zero_add] at htotal

/-! ### What counts and what is left out -/

/-- The ranges that count are some of the ranges, in their order. -/
theorem counted_sublist (start : UInt64) (ranges : List MemoryRange) :
    (counted start ranges).Sublist ranges := by
  induction ranges generalizing start with
  | nil => exact .slnil
  | cons range ranges ih =>
      rw [counted]
      split
      · exact (ih _).cons_cons range
      · exact (ih _).cons range

/-- The ranges that are left out are some of the ranges, in their order. -/
theorem leftOut_sublist (start : UInt64) (ranges : List MemoryRange) :
    (leftOut start ranges).Sublist ranges := by
  induction ranges generalizing start with
  | nil => exact .slnil
  | cons range ranges ih =>
      rw [leftOut]
      split
      · exact (ih _).cons range
      · exact (ih _).cons_cons range

/-- Each range counts or is left out, and none does both: `counted` and `leftOut` divide the
list. -/
theorem counted_append_leftOut_perm (start : UInt64) (ranges : List MemoryRange) :
    (counted start ranges ++ leftOut start ranges).Perm ranges := by
  induction ranges generalizing start with
  | nil => exact .nil
  | cons range ranges ih =>
      rw [counted, leftOut]
      split
      · exact (ih _).cons range
      · exact List.perm_middle.trans ((ih start).cons range)

/-- A range that was left out does not fit behind the final total either, since the total only
grows. -/
theorem lt_of_mem_leftOut {start : UInt64} {ranges : List MemoryRange} {range : MemoryRange}
    (h : range ∈ leftOut start ranges) :
    2 ^ 64 - 1 - (total start (ranges.map MemoryRange.length)).toNat < range.length.toNat := by
  induction ranges generalizing start with
  | nil => cases h
  | cons first ranges ih =>
      rw [leftOut] at h
      rw [List.map_cons, total_cons, keepingSum]
      split at h
      · rw [if_pos ‹_›]
        exact ih h
      · rename_i hfull
        rw [if_neg hfull]
        rcases List.mem_cons.mp h with rfl | h
        · -- It did not fit what the total was then, and the total has not shrunk since.
          have hsum := toNat_total_lengths start ranges
          have hlt := (total start (ranges.map MemoryRange.length)).toNat_lt
          simp only [UInt64.size] at hfull
          omega
        · exact ih h

/-- If all ranges fit together, then `counted` keeps all of them. -/
theorem counted_of_fit {start : UInt64} {ranges : List MemoryRange}
    (h : start.toNat + lengthSum ranges < UInt64.size) : counted start ranges = ranges := by
  induction ranges generalizing start with
  | nil => rfl
  | cons range ranges ih =>
      rw [lengthSum_cons, ← Nat.add_assoc] at h
      have hfirst : start.toNat + range.length.toNat < UInt64.size :=
        Nat.lt_of_le_of_lt (Nat.le_add_right _ _) h
      rw [counted, if_pos hfirst, ih (by rwa [toNat_add_of_lt hfirst])]

/-- Usable memory is the true sum of all usable ranges if that fits in 64 bits. -/
theorem toNat_usableBytes_of_fit {ranges : List MemoryRange}
    (h : lengthSum (ranges.filter (·.kind.isUsable)) ≤ 2 ^ 64 - 1) :
    (usableBytes ranges).toNat = lengthSum (ranges.filter (·.kind.isUsable)) := by
  have hroom : (0 : UInt64).toNat + lengthSum (ranges.filter (·.kind.isUsable)) <
      UInt64.size := by
    rw [UInt64.toNat_zero, Nat.zero_add]
    exact Nat.lt_succ_of_le h
  rw [toNat_usableBytes, counted_of_fit hroom]

/-- Take `n` equal lengths. Then as many of them are added as fit in 64 bits. -/
theorem toNat_total_replicate (start : UInt64) (n : Nat) {length : UInt64}
    (hpos : 0 < length.toNat) :
    (total start (List.replicate n length)).toNat =
      start.toNat + min n ((2 ^ 64 - 1 - start.toNat) / length.toNat) * length.toNat := by
  induction n generalizing start with
  | zero => rw [Nat.zero_min, Nat.zero_mul]; rfl
  | succ n ih =>
      rw [List.replicate_succ, total_cons, ih, toNat_keepingSum]
      split
      · -- One more fits, and takes its length from the room that is left.
        rename_i hfit
        simp only [UInt64.size] at hfit
        have hroom : 2 ^ 64 - 1 - start.toNat =
            2 ^ 64 - 1 - (start.toNat + length.toNat) + length.toNat := by omega
        rw [hroom, Nat.add_div_right _ hpos, Nat.add_min_add_right, Nat.succ_mul]
        omega
      · rename_i hfull
        simp only [UInt64.size] at hfull
        have hnone : (2 ^ 64 - 1 - start.toNat) / length.toNat = 0 :=
          Nat.div_eq_of_lt (by omega)
        rw [hnone, Nat.min_zero, Nat.min_zero]

/-- A length that does not fit is left out, and a later one still counts. -/
example : total 0 [0xFFFFFFFFFFEFFFFF, 0x200000, 0x100000] = 0xFFFFFFFFFFFFFFFF := by decide

end Memory

open Memory

/-- The usable memory of a map, exactly.

The usable ranges are divided into those that count and those that are left out. The total
is the true sum of the lengths of the former, which stays below `2 ^ 64` all along, and none
of the latter would fit it. If all usable ranges fit together they all count, in whatever
order. Ranges of other kinds do not matter. In mebibytes the total is rounded down, and cut
at the greatest number of 32 bits. Usable ranges of one length count as often as they fit. -/
theorem MemoryMap.usableBytes_exact (map : MemoryMap) :
    let usable := map.entries.filter (·.kind.isUsable)
    (∃ added dropped : List MemoryRange,
      added.Sublist usable ∧ dropped.Sublist usable ∧ (added ++ dropped).Perm usable ∧
      map.usableBytes.toNat = lengthSum added ∧
      (∀ front, front <+: added → lengthSum front ≤ 2 ^ 64 - 1) ∧
      ∀ range ∈ dropped, 2 ^ 64 - 1 - map.usableBytes.toNat < range.length.toNat) ∧
    (lengthSum usable ≤ 2 ^ 64 - 1 →
      map.usableBytes.toNat = lengthSum usable ∧
      ∀ ranges : List MemoryRange, ranges.Perm map.entries →
        Memory.usableBytes ranges = map.usableBytes) ∧
    (∀ ranges : List MemoryRange, ranges.filter (·.kind.isUsable) = usable →
      Memory.usableBytes ranges = map.usableBytes) ∧
    map.usableMebibytes.toNat = min (map.usableBytes.toNat / 2 ^ 20) (2 ^ 32 - 1) ∧
    ∀ (n : Nat) (length : UInt64), 0 < length.toNat →
      usable.map MemoryRange.length = List.replicate n length →
      map.usableBytes.toNat = min n ((2 ^ 64 - 1) / length.toNat) * length.toNat := by
  intro usable
  have hsum : map.usableBytes.toNat = lengthSum (counted 0 usable) :=
    toNat_usableBytes map.entries
  refine ⟨⟨counted 0 usable, leftOut 0 usable, counted_sublist 0 usable, leftOut_sublist 0 usable,
    counted_append_leftOut_perm 0 usable, hsum, ?_, ?_⟩, ?_, ?_, ?_, ?_⟩
  · rintro front ⟨back, hback⟩
    -- The part is no more than the whole, which is a number of 64 bits.
    have hlt := map.usableBytes.toNat_lt
    rw [hsum, ← hback, lengthSum_append] at hlt
    omega
  · intro range hrange
    exact lt_of_mem_leftOut hrange
  · intro hfit
    have hall : map.usableBytes.toNat = lengthSum usable := toNat_usableBytes_of_fit hfit
    refine ⟨hall, ?_⟩
    intro ranges hperm
    have hsame : lengthSum (ranges.filter (·.kind.isUsable)) = lengthSum usable :=
      lengthSum_perm (hperm.filter _)
    apply UInt64.toNat_inj.mp
    rw [hall, toNat_usableBytes_of_fit (by rwa [hsame]), hsame]
  · intro ranges hsame
    rw [Memory.usableBytes, usableLengths, hsame]
    rfl
  · have hfit : min (map.usableBytes.toNat / 2 ^ 20) (2 ^ 32 - 1) < 2 ^ 32 := by omega
    exact UInt32.toNat_ofNat_of_lt' hfit
  · intro n length hpos hequal
    have htotal := toNat_total_replicate 0 n hpos
    rw [← hequal, UInt64.toNat_zero, Nat.zero_add, Nat.sub_zero] at htotal
    exact htotal

end EarlyBoot

import EarlyBoot.Bytes.LittleEndian
import EarlyBoot.Bytes.Splice

/-!
# `EarlyBoot.Proofs.Bytes.Stretch`: stretches of byte strings that were overwritten

A splice and a move to the front are described byte by byte where they are
defined. Here the same is said of whole stretches, which is how pixels are read:
a stretch that the overwritten part does not reach is what it was, and one inside
that part is a stretch of the source.

Main statements:

* `getElem?_extract` : the bytes of a stretch;
* `extract_congr`, `field?_congr` : stretches and fields with the same bytes are equal;
* `extract_splice`, `extract_splice_of_disjoint` : stretches of a splice;
* `extract_eq_of_extract_zero` : stretches of strings that start alike;
* `bytesFrom`, `toList_extract`, `toList_extract_size` : stretches as lists;
* `extract_repeated` : each repetition is the repeated string.
-/

set_option autoImplicit false

namespace EarlyBoot.Bytes

/-- Strings that have the same byte, or none, at every index are equal. -/
theorem ext_getElem? {x y : ByteArray} (h : ∀ i : Nat, x[i]? = y[i]?) : x = y := by
  apply ByteArray.ext
  apply Array.ext_getElem?
  intro i
  rw [← getElem?_eq_data, ← getElem?_eq_data]
  exact h i

/-- A byte of two strings in a row is one of the first, or behind that one of the second. -/
theorem getElem?_append (a b : ByteArray) (i : Nat) :
    (a ++ b)[i]? = if i < a.size then a[i]? else b[i - a.size]? := by
  rw [getElem?_eq_data, getElem?_eq_data, getElem?_eq_data, ByteArray.data_append,
    Array.getElem?_append, ByteArray.size_data]

/-- The bytes of a stretch are those of the string from `start` on, as far as the string goes, and
there are none from index `n` on. -/
theorem getElem?_extract (bytes : ByteArray) (start n i : Nat) :
    (bytes.extract start (start + n))[i]? = if i < n then bytes[start + i]? else none := by
  rw [getElem?_eq_data, getElem?_eq_data, ByteArray.data_extract, Array.getElem?_extract]
  by_cases hi : i < n
  · by_cases hbyte : start + i < bytes.data.size
    · rw [if_pos (by omega), if_pos hi]
    · rw [if_neg (by omega), if_pos hi, Array.getElem?_eq_none (by omega)]
  · rw [if_neg (by omega), if_neg hi]

/-- The first `n` bytes of a string are its bytes at the indices below `n`. -/
theorem getElem?_extract_zero (bytes : ByteArray) (n i : Nat) :
    (bytes.extract 0 n)[i]? = if i < n then bytes[i]? else none := by
  have hbyte := getElem?_extract bytes 0 n i
  rwa [Nat.zero_add, Nat.zero_add] at hbyte

/-- Two stretches with the same bytes are equal, also where they run past the end of their
strings. -/
theorem extract_congr {x y : ByteArray} {a b n : Nat} (h : ∀ i < n, x[a + i]? = y[b + i]?) :
    x.extract a (a + n) = y.extract b (b + n) := by
  apply ext_getElem?
  intro i
  rw [getElem?_extract, getElem?_extract]
  split
  · exact h i ‹_›
  · rfl

/-- Strings that start with the same `least` bytes have the same stretches inside them. -/
theorem extract_eq_of_extract_zero {x y : ByteArray} {least start finish : Nat}
    (h : x.extract 0 least = y.extract 0 least) (hfinish : finish ≤ least) :
    x.extract start finish = y.extract start finish := by
  have hcut (z : ByteArray) :
      (z.extract 0 least).extract start finish = z.extract start finish := by
    rw [ByteArray.extract_extract, Nat.zero_add, Nat.zero_add, Nat.min_eq_left hfinish]
  rw [← hcut x, ← hcut y, h]

/-- A field is told by its bytes and by whether it fits, so `field?` agrees on strings of one size
that have the same bytes there. -/
theorem field?_congr {x y : ByteArray} {offset width : Nat} (hsize : x.size = y.size)
    (h : ∀ i < width, x[offset + i]? = y[offset + i]?) :
    field? x offset width = field? y offset width := by
  rw [field?, field?, extract_congr h, hsize]

/-- A stretch of the overwritten part is a stretch of the source. -/
theorem extract_splice {dest src : ByteArray} {offset start n : Nat}
    (h : offset + src.size ≤ dest.size) (hn : start + n ≤ src.size) :
    (splice dest offset src).extract (offset + start) (offset + start + n) =
      src.extract start (start + n) := by
  apply extract_congr
  intro i hi
  have hsub : offset + start + i - offset = start + i := by omega
  rw [getElem?_splice h, if_pos ⟨by omega, by omega⟩, hsub]

/-- A stretch that the overwritten part does not reach is what it was before the splice. -/
theorem extract_splice_of_disjoint {dest src : ByteArray} {offset start n : Nat}
    (h : offset + src.size ≤ dest.size)
    (hdisjoint : start + n ≤ offset ∨ offset + src.size ≤ start) :
    (splice dest offset src).extract start (start + n) = dest.extract start (start + n) := by
  apply extract_congr
  intro i hi
  rw [getElem?_splice h, if_neg (by omega)]

/-- Take two sources of the same size, spliced in at the same place one after the other. Then
`splice` leaves nothing of the first. -/
theorem splice_splice {dest first second : ByteArray} {offset : Nat}
    (h : offset + first.size ≤ dest.size) (hsize : second.size = first.size) :
    splice (splice dest offset first) offset second = splice dest offset second := by
  have hsecond : offset + second.size ≤ dest.size := by omega
  have hagain : offset + second.size ≤ (splice dest offset first).size := by
    rw [size_splice h]
    exact hsecond
  apply ext_getElem?
  intro i
  rw [getElem?_splice hagain, getElem?_splice hsecond, getElem?_splice h]
  by_cases hi : offset ≤ i ∧ i < offset + second.size
  · rw [if_pos hi, if_pos hi]
  · rw [if_neg hi, if_neg hi, if_neg (by omega)]

/-! ### Bytes in a list -/

/-- The bytes from `i` on. -/
def bytesFrom (bytes : ByteArray) (i : Nat) : List UInt8 :=
  bytes.data.toList.drop i

/-- The list of the bytes from `i` on, read at `n`, is the string read at `i + n`. -/
theorem getElem?_bytesFrom (bytes : ByteArray) (i n : Nat) :
    (bytesFrom bytes i)[n]? = bytes[i + n]? := by
  rw [bytesFrom, List.getElem?_drop, Array.getElem?_toList, getElem?_eq_data]

/-- From `i` on there are as many bytes as the string has behind `i`. -/
theorem length_bytesFrom (bytes : ByteArray) (i : Nat) :
    (bytesFrom bytes i).length = bytes.size - i := by
  rw [bytesFrom, List.length_drop, Array.length_toList, ByteArray.size_data]

/-- A stretch of `n` bytes, as a list, is the first `n` of those from its start on. -/
theorem toList_extract (bytes : ByteArray) (start n : Nat) :
    (bytes.extract start (start + n)).data.toList = (bytesFrom bytes start).take n := by
  rw [ByteArray.data_extract, Array.toList_extract, List.extract_eq_take_drop,
    Nat.add_sub_cancel_left, bytesFrom]

/-- The stretch up to the end, as a list, is all of the bytes from its start on. -/
theorem toList_extract_size (bytes : ByteArray) (i : Nat) :
    (bytes.extract i bytes.size).data.toList = bytesFrom bytes i := by
  have hlength := length_bytesFrom bytes i
  rw [ByteArray.data_extract, Array.toList_extract, List.extract_eq_take_drop]
  exact List.take_of_length_le (Nat.le_of_eq hlength)

/-- Behind the last byte there are none. -/
theorem bytesFrom_of_le {bytes : ByteArray} {i : Nat} (h : bytes.size ≤ i) :
    bytesFrom bytes i = [] := by
  rw [← List.length_eq_zero_iff, length_bytesFrom]
  omega

/-- The first `n` bytes from `i` on and those from `i + n` on are all from `i` on. -/
theorem take_append_bytesFrom (bytes : ByteArray) (i n : Nat) :
    (bytesFrom bytes i).take n ++ bytesFrom bytes (i + n) = bytesFrom bytes i := by
  rw [bytesFrom, bytesFrom, ← List.drop_drop, List.take_append_drop]

/-! ### Repetition -/

/-- The accumulator of `repeatedInto` stays in front of the copies. -/
theorem repeatedInto_eq (unit : ByteArray) (count : Nat) (acc : ByteArray) :
    repeatedInto unit count acc = acc ++ repeated unit count := by
  -- The accumulator grows with each step, so any one must do.
  induction count generalizing acc with
  | zero => simp [repeated, repeatedInto]
  | succ count ih =>
      have hfirst : repeated unit (count + 1) = repeatedInto unit count unit := by
        rw [repeated, repeatedInto, ByteArray.empty_append]
      rw [repeatedInto, ih, hfirst, ih unit, ByteArray.append_assoc]

/-- One copy more is one copy in front. -/
theorem repeated_succ (unit : ByteArray) (count : Nat) :
    repeated unit (count + 1) = unit ++ repeated unit count := by
  rw [repeated, repeatedInto, repeatedInto_eq, ByteArray.empty_append]

/-- The array that `filledInto` leaves has `count` equal bytes behind those of `acc`. -/
theorem data_filledInto (value : UInt8) (count : Nat) (acc : ByteArray) :
    (filledInto value count acc).data = acc.data ++ Array.replicate count value := by
  induction count generalizing acc with
  | zero => rw [filledInto, Array.replicate_zero, Array.append_empty]
  | succ count ih =>
      have hfirst :
          #[value] ++ Array.replicate count value = Array.replicate (count + 1) value := by
        rw [Nat.add_comm, ← Array.replicate_append_replicate]
        rfl
      rw [filledInto, ih, ByteArray.data_push, Array.push_eq_append, Array.append_assoc, hfirst]

/-- All bytes of a filled string are the same. -/
theorem getElem?_filled (count : Nat) (value : UInt8) (i : Nat) :
    (filled count value)[i]? = if i < count then some value else none := by
  rw [getElem?_eq_data, filled, data_filledInto]
  simp [Array.getElem?_replicate]

/-- Each repetition in `repeated unit count` is `unit`. -/
theorem extract_repeated {unit : ByteArray} {count i : Nat} (hi : i < count) :
    (repeated unit count).extract (i * unit.size) (i * unit.size + unit.size) = unit := by
  induction count generalizing i with
  | zero => omega
  | succ count ih =>
      -- The first repetition is in front, the others are those of one repetition less.
      rw [repeated_succ]
      cases i with
      | zero => rw [Nat.zero_mul, Nat.zero_add, ByteArray.extract_append_eq_left rfl]
      | succ i =>
          have hshift : (i + 1) * unit.size = unit.size + i * unit.size := by
            rw [Nat.succ_mul, Nat.add_comm]
          rw [hshift, Nat.add_assoc, ByteArray.extract_append_size_add, ih (by omega)]

end EarlyBoot.Bytes

/-!
# `EarlyBoot.Bytes.Splice`: overwriting part of a byte string

`splice dest offset src` is `dest` with the bytes from `offset` on replaced by
`src`; `moveToFront bytes start count` copies a stretch over the first bytes of
the same string, which may overlap it. Both are described by their size and by
what each index holds afterwards.

Main statements:

* `size_splice`, `getElem?_splice` : the bytes of a splice that fits;
* `size_moveToFront`, `getElem?_moveToFront` : the bytes after a move to the front.
-/

set_option autoImplicit false

namespace EarlyBoot.Bytes

/-- `dest` with the bytes from `offset` on replaced by `src`. -/
def splice (dest : ByteArray) (offset : Nat) (src : ByteArray) : ByteArray :=
  src.copySlice 0 dest offset src.size

/-- `bytes` with the `count` bytes from `start` on copied over its first `count` bytes. -/
def moveToFront (bytes : ByteArray) (start count : Nat) : ByteArray :=
  bytes.copySlice start bytes 0 count

/-- `count` copies of `unit`, one after the other, behind `acc`. -/
def repeatedInto (unit : ByteArray) : (count : Nat) → (acc : ByteArray) → ByteArray
  | 0,         acc => acc
  | count + 1, acc => repeatedInto unit count (acc ++ unit)

/-- `count` copies of `unit`, one after the other. -/
def repeated (unit : ByteArray) (count : Nat) : ByteArray :=
  repeatedInto unit count ByteArray.empty

/-- `count` bytes of the same value behind `acc`. -/
def filledInto (value : UInt8) : (count : Nat) → (acc : ByteArray) → ByteArray
  | 0,         acc => acc
  | count + 1, acc => filledInto value count (acc.push value)

/-- `count` bytes of the same value. -/
def filled (count : Nat) (value : UInt8) : ByteArray :=
  filledInto value count ByteArray.empty

/-! ### Splicing -/

/-- Reading a byte string at an index is reading its array there. The proofs about `splice` and
`moveToFront` go over to arrays by this. -/
theorem getElem?_eq_data (bytes : ByteArray) (i : Nat) : bytes[i]? = bytes.data[i]? := by
  by_cases h : i < bytes.size
  · have h' : i < bytes.data.size := h
    rw [getElem?_pos bytes i h, getElem?_pos bytes.data i h']
    rfl
  · have h' : ¬ i < bytes.data.size := h
    rw [getElem?_neg bytes i h, getElem?_neg bytes.data i h']

/-- The array of a splice in three parts: what stood before `offset`, the bytes of `src`, and what
stood behind them. -/
theorem splice_data {dest src : ByteArray} {offset : Nat} :
    (splice dest offset src).data =
      dest.data.extract 0 offset ++ src.data ++
        dest.data.extract (offset + src.size) dest.size := by
  have hs : src.data.extract 0 src.size = src.data := by
    rw [← ByteArray.size_data]
    simp
  simp [splice, ByteArray.copySlice, hs]

/-- A splice that fits changes no size. -/
@[simp]
theorem size_splice {dest src : ByteArray} {offset : Nat} (h : offset + src.size ≤ dest.size) :
    (splice dest offset src).size = dest.size := by
  rw [← ByteArray.size_data, splice_data]
  simp only [Array.size_append, Array.size_extract, ByteArray.size_data]
  omega

/-- Take a splice that fits. Then it holds `src` from `offset` on, and `dest` at every index before
and behind it. -/
theorem getElem?_splice {dest src : ByteArray} {offset : Nat}
    (h : offset + src.size ≤ dest.size) (i : Nat) :
    (splice dest offset src)[i]? =
      if offset ≤ i ∧ i < offset + src.size then src[i - offset]? else dest[i]? := by
  simp only [getElem?_eq_data, splice_data]
  have hd : dest.data.size = dest.size := rfl
  have hs : src.data.size = src.size := rfl
  have hfront : min offset dest.size = offset := by omega
  simp only [Array.getElem?_append, Array.getElem?_extract, Array.size_append, Array.size_extract,
    hd, hs, Nat.sub_zero, Nat.zero_add, hfront, Nat.min_self]
  -- In front of the copied bytes, among them, and behind them.
  by_cases h₁ : i < offset
  · simp [h₁, show i < offset + src.size by omega, show ¬ offset ≤ i by omega]
  · by_cases h₂ : i < offset + src.size
    · simp [h₁, h₂, show offset ≤ i by omega]
    · have hi : offset + src.size + (i - (offset + src.size)) = i := by omega
      have hlt : i - (offset + src.size) < dest.size - (offset + src.size) ↔ i < dest.size := by
        omega
      simp only [h₂, hi, hlt, and_false, if_false]
      split
      · rfl
      · rw [Array.getElem?_eq_none]
        omega

/-! ### Moving to the front -/

/-- The array after `moveToFront` in two parts: the stretch that was copied, and the bytes behind
the first `count`. -/
theorem moveToFront_data {bytes : ByteArray} {start count : Nat}
    (h : start + count ≤ bytes.size) :
    (moveToFront bytes start count).data =
      bytes.data.extract start (start + count) ++ bytes.data.extract count bytes.size := by
  have hm : min count (bytes.size - start) = count := by omega
  simp [moveToFront, ByteArray.copySlice, hm]

/-- A move to the front changes no size. -/
@[simp]
theorem size_moveToFront {bytes : ByteArray} {start count : Nat}
    (h : start + count ≤ bytes.size) : (moveToFront bytes start count).size = bytes.size := by
  rw [← ByteArray.size_data, moveToFront_data h]
  simp only [Array.size_append, Array.size_extract, ByteArray.size_data]
  omega

/-- After `moveToFront` the first `count` bytes are those that stood from `start` on, even where the
two stretches overlap; the rest is as before. -/
theorem getElem?_moveToFront {bytes : ByteArray} {start count : Nat}
    (h : start + count ≤ bytes.size) (i : Nat) :
    (moveToFront bytes start count)[i]? =
      if i < count then bytes[start + i]? else bytes[i]? := by
  simp only [getElem?_eq_data, moveToFront_data h]
  have hb : bytes.data.size = bytes.size := rfl
  have hfront : min (start + count) bytes.size - start = count := by omega
  simp only [Array.getElem?_append, Array.getElem?_extract, Array.size_extract, hb, hfront,
    Nat.min_self]
  by_cases h₁ : i < count
  · simp [h₁]
  · have hi : count + (i - count) = i := by omega
    simp only [h₁, hi, if_false]
    split
    · rfl
    · rw [Array.getElem?_eq_none]
      omega

/-! ### Repetition -/

/-- Each copy adds the size of `unit` to what stands in `acc`. -/
theorem size_repeatedInto (unit : ByteArray) (count : Nat) (acc : ByteArray) :
    (repeatedInto unit count acc).size = acc.size + count * unit.size := by
  induction count generalizing acc with
  | zero => simp [repeatedInto]
  | succ count ih =>
      simp only [repeatedInto, ih, ByteArray.size_append, Nat.succ_mul]
      omega

/-- The string `repeated unit count` has `count` times the size of `unit`. -/
@[simp]
theorem size_repeated (unit : ByteArray) (count : Nat) :
    (repeated unit count).size = count * unit.size := by
  simp [repeated, size_repeatedInto]

/-- Each step adds one byte to what stands in `acc`. -/
theorem size_filledInto (value : UInt8) (count : Nat) (acc : ByteArray) :
    (filledInto value count acc).size = acc.size + count := by
  induction count generalizing acc with
  | zero => rfl
  | succ count ih =>
      simp only [filledInto, ih, ByteArray.size_push]
      omega

/-- The string `filled count value` has `count` bytes. -/
@[simp]
theorem size_filled (count : Nat) (value : UInt8) : (filled count value).size = count := by
  simp [filled, size_filledInto]

end EarlyBoot.Bytes

import EarlyBoot.Bytes.LittleEndian
import Mathlib.Algebra.Group.Nat.Defs

/-!
# `EarlyBoot.Proofs.Bytes.Fields`: fields of byte strings that were put together

A record is written by putting the bytes of its fields one behind the other, and
is read by asking for a field at an offset. The two meet here. A field behind the
first of two strings is a field of the second, at an offset that is smaller by
the size of the first, and the field that a string starts with is the number
that was written there.

Main statements:

* `field?_append_right`, `field?_append_left` : which of two strings a field is in;
* `field?_encode` : a number that was written is read back;
* `uint16?_eq_some` and its siblings : a word is read exactly where its bytes are;
* `exists_le64`, `exists_le32` : any eight bytes, and any four, are those of a word.
-/

set_option autoImplicit false

namespace EarlyBoot.Bytes

/-! ### Numbers and their digits -/

/-- A field of `width` bytes holds its number modulo `256 ^ width`: what does not fit is cut off. -/
theorem ofDigits_digits (width n : Nat) : ofDigits (digits width n) = n % 256 ^ width := by
  induction width generalizing n with
  | zero => simp [digits, ofDigits, Nat.mod_one]
  | succ width ih =>
      -- The lowest byte comes first, so one byte of the width splits off below.
      have step : n % 256 ^ (width + 1) = n % 256 + 256 * (n / 256 % 256 ^ width) := by
        rw [Nat.pow_succ, Nat.mul_comm, Nat.mod_mul]
      rw [step]
      simp [digits, ofDigits, ih]

/-- A number below `256 ^ width` comes back from its field of `width` bytes. -/
theorem ofDigits_digits_of_lt {width n : Nat} (h : n < 256 ^ width) :
    ofDigits (digits width n) = n := by
  rw [ofDigits_digits, Nat.mod_eq_of_lt h]

/-- A field of `ds.length` bytes holds a number below `256 ^ ds.length`. -/
theorem ofDigits_lt (ds : List UInt8) : ofDigits ds < 256 ^ ds.length := by
  induction ds with
  | nil => simp [ofDigits]
  | cons d ds ih =>
      have hd : d.toNat < 256 := d.toNat_lt
      simp only [ofDigits, List.length_cons, Nat.pow_succ]
      omega

/-! ### Fields of two strings -/

/-- A field behind the first of two strings is a field of the second, that much further in front. -/
theorem field?_append_right {a b : ByteArray} {offset width : Nat} (h : a.size ≤ offset) :
    field? (a ++ b) offset width = field? b (offset - a.size) width := by
  -- The offset is one of the second string, with the size of the first added.
  obtain ⟨k, rfl⟩ := Nat.exists_eq_add_of_le h
  have hsub : a.size + k - a.size = k := by omega
  have hiff : a.size + k + width ≤ a.size + b.size ↔ k + width ≤ b.size := by omega
  have hbytes : (a ++ b).extract (a.size + k) (a.size + k + width) = b.extract k (k + width) := by
    rw [Nat.add_assoc, ByteArray.extract_append_size_add]
  simp only [field?, ByteArray.size_append, hiff, hbytes, hsub]

/-- A field that ends inside the first of two strings is a field of that string. -/
theorem field?_append_left {a b : ByteArray} {offset width : Nat} (h : offset + width ≤ a.size) :
    field? (a ++ b) offset width = field? a offset width := by
  have hle : offset + width ≤ (a ++ b).size := by
    rw [ByteArray.size_append]
    omega
  -- Nothing of the second string is cut out.
  have hbytes : (a ++ b).extract offset (offset + width) = a.extract offset (offset + width) := by
    have hempty : b.extract (offset - a.size) (offset + width - a.size) = ByteArray.empty := by
      rw [ByteArray.extract_eq_empty_iff]
      omega
    rw [ByteArray.extract_append, hempty, ByteArray.append_empty]
  rw [field?_of_le hle, field?_of_le h, hbytes]

/-- A number that `encode` wrote is read back by `field?`, modulo the room that it had. -/
theorem field?_encode (width n : Nat) :
    field? (encode width n) 0 width = some (n % 256 ^ width) := by
  -- The field takes all bytes of the encoding.
  have hall : (encode width n).extract 0 width = encode width n := by
    have hsize : (encode width n).extract 0 (encode width n).size = encode width n :=
      ByteArray.extract_zero_size
    rwa [size_encode] at hsize
  have hle : 0 + width ≤ (encode width n).size := by
    rw [size_encode]
    omega
  rw [field?_of_le hle, Nat.zero_add, hall, encode, List.data_toByteArray, List.toList_toArray,
    ofDigits_digits]

/-- A field is read as `value` exactly where the bytes are those of `encode` for it. In this form a
field can be compared with the bytes that a writer has left. -/
theorem field?_eq_some_encode {bytes : ByteArray} {offset width value : Nat} :
    field? bytes offset width = some value ↔
      offset + width ≤ bytes.size ∧ value < 256 ^ width ∧
        bytes.extract offset (offset + width) = encode width value := by
  rw [field?_eq_some]
  constructor
  · rintro ⟨hle, hvalue⟩
    have hlen : (bytes.extract offset (offset + width)).data.toList.length = width := by
      rw [Array.length_toList, ByteArray.size_data, ByteArray.size_extract]
      omega
    have hlt := ofDigits_lt (bytes.extract offset (offset + width)).data.toList
    -- Digits that were read are those of the number that they stand for.
    have hdigits := digits_ofDigits (bytes.extract offset (offset + width)).data.toList
    rw [hlen, hvalue] at hlt hdigits
    refine ⟨hle, hlt, ?_⟩
    apply ByteArray.ext
    rw [encode, hdigits, List.data_toByteArray, Array.toArray_toList]
  · rintro ⟨hle, hlt, hbytes⟩
    refine ⟨hle, ?_⟩
    rw [hbytes, encode, List.data_toByteArray, List.toList_toArray, ofDigits_digits_of_lt hlt]

/-! ### Words at the start of a string -/

/-- A 16-bit number takes two bytes. -/
@[simp]
theorem size_le16 (n : UInt16) : (le16 n).size = 2 := size_encode 2 _

/-- A 32-bit number takes four bytes. -/
@[simp]
theorem size_le32 (n : UInt32) : (le32 n).size = 4 := size_encode 4 _

/-- A 64-bit number takes eight bytes. -/
@[simp]
theorem size_le64 (n : UInt64) : (le64 n).size = 8 := size_encode 8 _

/-- A 16-bit number at the front of a string is read back. -/
@[simp]
theorem uint16?_le16_append (n : UInt16) (b : ByteArray) : uint16? (le16 n ++ b) 0 = some n := by
  have hfit : n.toNat % 256 ^ 2 = n.toNat := Nat.mod_eq_of_lt n.toNat_lt
  rw [uint16?, field?_append_left (by simp), le16, field?_encode, hfit]
  simp

/-- A 32-bit number at the front of a string is read back. -/
@[simp]
theorem uint32?_le32_append (n : UInt32) (b : ByteArray) : uint32? (le32 n ++ b) 0 = some n := by
  have hfit : n.toNat % 256 ^ 4 = n.toNat := Nat.mod_eq_of_lt n.toNat_lt
  rw [uint32?, field?_append_left (by simp), le32, field?_encode, hfit]
  simp

/-- A 64-bit number at the front of a string is read back. -/
@[simp]
theorem uint64?_le64_append (n : UInt64) (b : ByteArray) : uint64? (le64 n ++ b) 0 = some n := by
  have hfit : n.toNat % 256 ^ 8 = n.toNat := Nat.mod_eq_of_lt n.toNat_lt
  rw [uint64?, field?_append_left (by simp), le64, field?_encode, hfit]
  simp

/-- A 32-bit number that stands alone is read back. -/
@[simp]
theorem uint32?_le32 (n : UInt32) : uint32? (le32 n) 0 = some n := by
  rw [← ByteArray.append_empty (b := le32 n), uint32?_le32_append]

/-- A 64-bit number that stands alone is read back. -/
@[simp]
theorem uint64?_le64 (n : UInt64) : uint64? (le64 n) 0 = some n := by
  rw [← ByteArray.append_empty (b := le64 n), uint64?_le64_append]

/-- A byte of a list at the front of a string is read by its index in the list. -/
theorem uint8?_toByteArray_append {l : List UInt8} {i : Nat} (h : i < l.length) (b : ByteArray) :
    uint8? (l.toByteArray ++ b) i = some l[i] := by
  have hsize : i < l.toByteArray.size := by
    rwa [List.size_toByteArray]
  have happend : i < (l.toByteArray ++ b).size := by
    rw [ByteArray.size_append]
    omega
  unfold uint8?
  rw [getElem?_pos _ i happend, ByteArray.getElem_append_left hsize, List.getElem_toByteArray]

/-! ### Words behind other bytes -/

/-- A byte behind the first of two strings is a byte of the second. -/
theorem uint8?_append_right {a b : ByteArray} {offset : Nat} (h : a.size ≤ offset) :
    uint8? (a ++ b) offset = uint8? b (offset - a.size) := by
  unfold uint8?
  -- Inside the second string both sides read a byte, behind it neither does.
  by_cases hb : offset - a.size < b.size
  · have hab : offset < (a ++ b).size := by
      rw [ByteArray.size_append]
      omega
    rw [getElem?_pos (a ++ b) offset hab, getElem?_pos b _ hb, ByteArray.getElem_append_right h]
  · have hab : ¬ offset < (a ++ b).size := by
      rw [ByteArray.size_append]
      omega
    rw [getElem?_neg (a ++ b) offset hab, getElem?_neg b _ hb]

/-- A 32-bit number behind the first of two strings is one of the second. -/
theorem uint32?_append_right {a b : ByteArray} {offset : Nat} (h : a.size ≤ offset) :
    uint32? (a ++ b) offset = uint32? b (offset - a.size) := by
  rw [uint32?, field?_append_right h, ← uint32?]

/-- A 64-bit number behind the first of two strings is one of the second. -/
theorem uint64?_append_right {a b : ByteArray} {offset : Nat} (h : a.size ≤ offset) :
    uint64? (a ++ b) offset = uint64? b (offset - a.size) := by
  rw [uint64?, field?_append_right h, ← uint64?]

/-! ### Where a word is read -/

/-- A 16-bit field is read exactly where the bytes of its number, as `le16` writes them, are. -/
theorem uint16?_eq_some {bytes : ByteArray} {offset : Nat} {value : UInt16} :
    uint16? bytes offset = some value ↔
      offset + 2 ≤ bytes.size ∧ bytes.extract offset (offset + 2) = le16 value := by
  constructor
  · intro h
    obtain ⟨n, hn, rfl⟩ := Option.map_eq_some_iff.mp h
    obtain ⟨hle, hlt, hbytes⟩ := field?_eq_some_encode.mp hn
    refine ⟨hle, ?_⟩
    rw [hbytes, le16, UInt16.toNat_ofNat_of_lt' hlt]
  · rintro ⟨hle, hbytes⟩
    rw [uint16?, field?_eq_some_encode.mpr ⟨hle, value.toNat_lt, hbytes⟩]
    simp

/-- A 32-bit field is read exactly where the bytes of its number, as `le32` writes them, are. -/
theorem uint32?_eq_some {bytes : ByteArray} {offset : Nat} {value : UInt32} :
    uint32? bytes offset = some value ↔
      offset + 4 ≤ bytes.size ∧ bytes.extract offset (offset + 4) = le32 value := by
  constructor
  · intro h
    obtain ⟨n, hn, rfl⟩ := Option.map_eq_some_iff.mp h
    obtain ⟨hle, hlt, hbytes⟩ := field?_eq_some_encode.mp hn
    refine ⟨hle, ?_⟩
    rw [hbytes, le32, UInt32.toNat_ofNat_of_lt' hlt]
  · rintro ⟨hle, hbytes⟩
    rw [uint32?, field?_eq_some_encode.mpr ⟨hle, value.toNat_lt, hbytes⟩]
    simp

/-- A 64-bit field is read exactly where the bytes of its number, as `le64` writes them, are. -/
theorem uint64?_eq_some {bytes : ByteArray} {offset : Nat} {value : UInt64} :
    uint64? bytes offset = some value ↔
      offset + 8 ≤ bytes.size ∧ bytes.extract offset (offset + 8) = le64 value := by
  constructor
  · intro h
    obtain ⟨n, hn, rfl⟩ := Option.map_eq_some_iff.mp h
    obtain ⟨hle, hlt, hbytes⟩ := field?_eq_some_encode.mp hn
    refine ⟨hle, ?_⟩
    rw [hbytes, le64, UInt64.toNat_ofNat_of_lt' hlt]
  · rintro ⟨hle, hbytes⟩
    rw [uint64?, field?_eq_some_encode.mpr ⟨hle, value.toNat_lt, hbytes⟩]
    simp

/-- Any eight bytes are the field of some 64-bit number, so there are no malformed ones. -/
theorem exists_le64 (bytes : ByteArray) (offset : Nat) (h : offset + 8 ≤ bytes.size) :
    ∃ value, bytes.extract offset (offset + 8) = le64 value := by
  have hread : uint64? bytes offset = some _ := congrArg (Option.map UInt64.ofNat) (field?_of_le h)
  exact ⟨_, (uint64?_eq_some.mp hread).2⟩

/-- Any four bytes are the field of some 32-bit number, so there are no malformed ones. -/
theorem exists_le32 (bytes : ByteArray) (offset : Nat) (h : offset + 4 ≤ bytes.size) :
    ∃ value, bytes.extract offset (offset + 4) = le32 value := by
  have hread : uint32? bytes offset = some _ := congrArg (Option.map UInt32.ofNat) (field?_of_le h)
  exact ⟨_, (uint32?_eq_some.mp hread).2⟩

end EarlyBoot.Bytes

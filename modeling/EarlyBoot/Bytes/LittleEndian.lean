/-!
# `EarlyBoot.Bytes.LittleEndian`: numbers in bytes, least significant byte first

A number is written as its digits in base 256, least significant digit first.
`digits w n` is the field of `w` bytes that holds `n`, `ofDigits` reads a field
back, and the `?` readers take a field out of a byte string at an offset. A
field that does not lie wholly inside the byte string is not read at all.

Main statements:

* `digits_ofDigits` : every field is the field of the number that it holds;
* `field?_eq_some` : a field is read exactly when it fits.
-/

set_option autoImplicit false

namespace EarlyBoot.Bytes

/-- Byte strings are compared as the core library does it, whatever else is in scope. -/
instance (priority := high) decidableEqByteArray : DecidableEq ByteArray :=
  ByteArray.instDecidableEq

/-- The number whose base-256 digits are `ds`, least significant first. -/
def ofDigits : List UInt8 → Nat
  | []      => 0
  | d :: ds => d.toNat + 256 * ofDigits ds

/-- The `width` lowest base-256 digits of `n`, least significant first. -/
def digits : (width : Nat) → (n : Nat) → List UInt8
  | 0,         _ => []
  | width + 1, n => UInt8.ofNat n :: digits width (n / 256)

/-- The bytes of the field of `width` bytes that holds `n`. -/
def encode (width n : Nat) : ByteArray :=
  (digits width n).toByteArray

/-- The number in the field of `width` bytes at `offset`, if the field fits. -/
def field? (bytes : ByteArray) (offset width : Nat) : Option Nat :=
  if offset + width ≤ bytes.size then
    some (ofDigits (bytes.extract offset (offset + width)).data.toList)
  else
    none

/-! ### Words of one to eight bytes -/

def uint8? (bytes : ByteArray) (offset : Nat) : Option UInt8 :=
  bytes[offset]?

def uint16? (bytes : ByteArray) (offset : Nat) : Option UInt16 :=
  (field? bytes offset 2).map UInt16.ofNat

def uint32? (bytes : ByteArray) (offset : Nat) : Option UInt32 :=
  (field? bytes offset 4).map UInt32.ofNat

def uint64? (bytes : ByteArray) (offset : Nat) : Option UInt64 :=
  (field? bytes offset 8).map UInt64.ofNat

def le16 (n : UInt16) : ByteArray :=
  encode 2 n.toNat

def le32 (n : UInt32) : ByteArray :=
  encode 4 n.toNat

def le64 (n : UInt64) : ByteArray :=
  encode 8 n.toNat

/-! ### Laws -/

/-- The field of `width` bytes has `width` digits, whatever number it holds. -/
@[simp]
theorem length_digits (width n : Nat) : (digits width n).length = width := by
  induction width generalizing n with
  | zero => rfl
  | succ width ih => simp [digits, ih]

/-- The bytes that `encode` writes for a field of `width` bytes are `width` many. -/
@[simp]
theorem size_encode (width n : Nat) : (encode width n).size = width := by
  simp [encode]

/-- Every field is the field of the number that it holds: `digits` undoes `ofDigits` on a list of
digits of that length. -/
theorem digits_ofDigits (ds : List UInt8) : digits ds.length (ofDigits ds) = ds := by
  induction ds with
  | nil => rfl
  | cons d ds ih =>
      have hd : d.toNat < 256 := d.toNat_lt
      have low : UInt8.ofNat (d.toNat + 256 * ofDigits ds) = d := by
        apply UInt8.toNat_inj.mp
        simp
      have high : (d.toNat + 256 * ofDigits ds) / 256 = ofDigits ds := by omega
      simp [digits, ofDigits, low, high, ih]

/-- A field is read exactly when it lies inside the bytes. Then `field?` returns the number whose
digits are the bytes at its offset, and nothing outside the field matters. -/
theorem field?_eq_some {bytes : ByteArray} {offset width value : Nat} :
    field? bytes offset width = some value ↔
      offset + width ≤ bytes.size ∧
        ofDigits (bytes.extract offset (offset + width)).data.toList = value := by
  simp [field?]

/-- Whether `field?` finds a number depends only on where the field ends and how many bytes there
are. -/
@[simp]
theorem field?_isSome {bytes : ByteArray} {offset width : Nat} :
    (field? bytes offset width).isSome = decide (offset + width ≤ bytes.size) := by
  by_cases h : offset + width ≤ bytes.size <;> simp [field?, h]

/-- Take a field that lies inside the bytes. Then `field?` reads it, as `ofDigits` of the bytes
there. -/
theorem field?_of_le {bytes : ByteArray} {offset width : Nat}
    (h : offset + width ≤ bytes.size) :
    field? bytes offset width =
      some (ofDigits (bytes.extract offset (offset + width)).data.toList) := by
  simp [field?, h]

/-- Take a field that ends beyond the last byte. Then `field?` reads nothing, even if the field
starts inside. -/
theorem field?_of_lt {bytes : ByteArray} {offset width : Nat}
    (h : bytes.size < offset + width) : field? bytes offset width = none := by
  simp [field?, Nat.not_le.mpr h]

end EarlyBoot.Bytes

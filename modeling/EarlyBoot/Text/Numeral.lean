/-!
# `EarlyBoot.Text.Numeral`: numbers as text

Decimal numbers are written plainly. Hexadecimal numbers are written in lower
case behind `0x`, with zeros in front up to a least number of digits; a number
with more digits is written in full. `readHex?` reads such a number back.

Main statements:

* `length_hexDigits` : a number of no more than `width` digits gets exactly `width`;
* `readHex?_hex` : what was written is read back.
-/

set_option autoImplicit false

namespace EarlyBoot.Text

def decimal (n : Nat) : String :=
  String.ofList (Nat.toDigits 10 n)

/-- The hexadecimal digits of `n`, with zeros in front up to `width` digits. -/
def hexDigits (width n : Nat) : List Char :=
  let ds := Nat.toDigits 16 n
  List.replicate (width - ds.length) '0' ++ ds

/-- `n` in hexadecimal with at least `width` digits behind `0x`. -/
def hex (width n : Nat) : String :=
  String.ofList ('0' :: 'x' :: hexDigits width n)

/-- The number that a hexadecimal digit in lower case stands for. -/
def hexValue? (c : Char) : Option Nat :=
  if '0' ≤ c ∧ c ≤ '9' then some (c.toNat - '0'.toNat)
  else if 'a' ≤ c ∧ c ≤ 'f' then some (c.toNat - 'a'.toNat + 10)
  else none

/-- The number that hexadecimal digits stand for, most significant first, behind the
digits of `n`. -/
def readHexDigits? (n : Nat) (ds : List Char) : Option Nat :=
  ds.foldlM (fun n c => (hexValue? c).map (16 * n + ·)) n

/-- The number that a text like `0x1f` stands for. -/
def readHex? (text : String) : Option Nat :=
  match text.toList with
  | '0' :: 'x' :: d :: ds => readHexDigits? 0 (d :: ds)
  | _                     => none

/-- Take a number of no more than `width` hexadecimal digits. Then `hexDigits` gives it exactly
`width` of them, with zeros in front. -/
theorem length_hexDigits {width n : Nat} (h : (Nat.toDigits 16 n).length ≤ width) :
    (hexDigits width n).length = width := by
  simp only [hexDigits, List.length_append, List.length_replicate]
  omega

/-! ### Reading back -/

/-- A hexadecimal digit that `Nat.digitChar` wrote is read back by `hexValue?`. -/
theorem hexValue?_digitChar {d : Nat} (h : d < 16) : hexValue? (Nat.digitChar d) = some d := by
  have all : ∀ d : Fin 16, hexValue? (Nat.digitChar d) = some d.val := by decide
  exact all ⟨d, h⟩

/-- Reading digits goes on from the value of those that were read before. -/
theorem readHexDigits?_append (n : Nat) (first second : List Char) :
    readHexDigits? n (first ++ second) =
      (readHexDigits? n first).bind fun n => readHexDigits? n second := by
  simp [readHexDigits?, List.foldlM_append, bind]

/-- The digits that `Nat.toDigits` writes for a number are read back as that number. -/
theorem readHexDigits?_toDigits (n : Nat) : readHexDigits? 0 (Nat.toDigits 16 n) = some n := by
  induction n using Nat.strongRecOn with
  | ind n ih =>
      rw [Nat.toDigits_eq_if (by decide)]
      split
      · rename_i h
        simp [readHexDigits?, hexValue?_digitChar h]
      · -- The digits in front read as the quotient, and the last one as the remainder.
        rename_i h
        rw [readHexDigits?_append, ih (n / 16) (by omega), Option.bind_some]
        have hd := hexValue?_digitChar (Nat.mod_lt n (by decide : 0 < 16))
        have hn := Nat.div_add_mod n 16
        simp [readHexDigits?, hd, hn]

/-- Zeros in front of the digits make no difference to the value. -/
theorem readHexDigits?_zeros (count : Nat) (ds : List Char) :
    readHexDigits? 0 (List.replicate count '0' ++ ds) = readHexDigits? 0 ds := by
  induction count with
  | zero => rfl
  | succ count ih =>
      rw [List.replicate_succ, List.cons_append, readHexDigits?, List.foldlM_cons]
      exact ih

/-- The number that `hex` writes, padded to any width, is read back by `readHex?`. -/
theorem readHex?_hex (width n : Nat) : readHex? (hex width n) = some n := by
  have hread : readHexDigits? 0 (hexDigits width n) = some n := by
    rw [hexDigits, readHexDigits?_zeros, readHexDigits?_toDigits]
  have hne : hexDigits width n ≠ [] := by
    simp [hexDigits, Nat.toDigits_ne_nil]
  unfold readHex? hex
  rw [String.toList_ofList]
  cases hds : hexDigits width n with
  | nil => exact absurd hds hne
  | cons d ds => simpa [hds] using hread

end EarlyBoot.Text

import EarlyBoot.Text.Utf8

/-!
# `EarlyBoot.Proofs.Text.Starts`: how the encoding of a character may start

Where no character starts, malformed bytes are told from what could have become a
character by looking at two or three bytes (`maySecond`, `isContinuation`). Here these
tests are compared with the encoding itself: the bytes pass exactly if they are the first
ones, and not all, of the encoding of some character. This is where overlong forms and
surrogates drop out, as there is no character for them.

Main statements:

* `maySecond_of_encode`, `exists_encode_of_maySecond` : the first two bytes;
* `third_of_encode`, `exists_encode_of_third` : the first three.
-/

set_option autoImplicit false

namespace EarlyBoot.Text

open String (utf8EncodeChar)

/-- The check `maySecond` is the rows of the table of well-formed byte sequences, as far as it is
about the first two bytes of three or four. -/
theorem maySecond_iff (first second : UInt8) :
    maySecond first second = true ↔
      first.toNat = 0xE0 ∧ 0xA0 ≤ second.toNat ∧ second.toNat ≤ 0xBF ∨
      first.toNat = 0xED ∧ 0x80 ≤ second.toNat ∧ second.toNat ≤ 0x9F ∨
      first.toNat = 0xF0 ∧ 0x90 ≤ second.toNat ∧ second.toNat ≤ 0xBF ∨
      first.toNat = 0xF4 ∧ 0x80 ≤ second.toNat ∧ second.toNat ≤ 0x8F ∨
      (first.toNat ≠ 0xE0 ∧ first.toNat ≠ 0xED ∧ first.toNat ≠ 0xF0) ∧
        (0xE1 ≤ first.toNat ∧ first.toNat ≤ 0xF3) ∧
        0x80 ≤ second.toNat ∧ second.toNat ≤ 0xBF := by
  simp only [maySecond, isContinuation, ← UInt8.toNat_inj, UInt8.le_iff_toNat_le]
  repeat' split
  all_goals simp only [Bool.and_eq_true, decide_eq_true_eq, UInt8.reduceToNat] at *; omega

/-- A continuation byte is one from `0x80` to `0xBF`. -/
theorem isContinuation_iff (b : UInt8) :
    isContinuation b = true ↔ 0x80 ≤ b.toNat ∧ b.toNat ≤ 0xBF := by
  simp [isContinuation, UInt8.le_iff_toNat_le]

/-- The number of a character is not that of a surrogate, and lies below `0x110000`. -/
theorem toNat_val_lt (c : Char) :
    c.val.toNat < 0xD800 ∨ 0xDFFF < c.val.toNat ∧ c.val.toNat < 0x110000 :=
  c.valid

/-- Every number below `0x110000` that is not one of a surrogate is the number of a character. -/
theorem exists_char {v : Nat} (h : v < 0xD800 ∨ 0xDFFF < v ∧ v < 0x110000) :
    ∃ c : Char, c.val.toNat = v :=
  ⟨Char.ofNatAux v h, rfl⟩

/-- A character of three or four bytes starts with two that may follow each other. -/
theorem maySecond_of_encode {c : Char} {first second third : UInt8} {rest : List UInt8}
    (h : utf8EncodeChar c = first :: second :: third :: rest) : maySecond first second = true := by
  have hvalid := toNat_val_lt c
  rw [String.utf8EncodeChar.eq_1] at h
  rw [maySecond_iff]
  split at h
  · cases h
  split at h
  · cases h
  split at h
  · cases h
    simp only [UInt8.toNat_ofNat']
    omega
  · cases h
    simp only [UInt8.toNat_ofNat']
    omega

/-- A character of four bytes has a lead byte for four, and goes on with a continuation. -/
theorem third_of_encode {c : Char} {first second third fourth : UInt8} {rest : List UInt8}
    (h : utf8EncodeChar c = first :: second :: third :: fourth :: rest) :
    0xF0 ≤ first ∧ isContinuation third = true := by
  have hvalid := toNat_val_lt c
  rw [String.utf8EncodeChar.eq_1] at h
  rw [isContinuation_iff, UInt8.le_iff_toNat_le]
  split at h
  · cases h
  split at h
  · cases h
  split at h
  · cases h
  · cases h
    simp only [UInt8.toNat_ofNat', UInt8.reduceToNat]
    omega

/-- Two bytes that may follow each other, with a lead byte for four and a continuation behind them,
start the encoding of some character. -/
theorem exists_encode_of_third {first second third : UInt8} (h : maySecond first second = true)
    (hfirst : 0xF0 ≤ first) (hthird : isContinuation third = true) :
    ∃ c fourth, utf8EncodeChar c = [first, second, third, fourth] := by
  rw [maySecond_iff] at h
  rw [isContinuation_iff] at hthird
  rw [UInt8.le_iff_toNat_le] at hfirst
  simp only [UInt8.reduceToNat] at hfirst
  obtain ⟨c, hc⟩ := exists_char (v := (first.toNat - 240) * 262144 + (second.toNat - 128) * 4096 +
    (third.toNat - 128) * 64) (by omega)
  refine ⟨c, 0x80, ?_⟩
  rw [String.utf8EncodeChar.eq_1, hc, if_neg (by omega), if_neg (by omega), if_neg (by omega)]
  simp only [List.cons.injEq, and_true, ← UInt8.toNat_inj, UInt8.toNat_ofNat', UInt8.reduceToNat]
  omega

/-- Two bytes that may follow each other start the encoding of some character. -/
theorem exists_encode_of_maySecond {first second : UInt8} (h : maySecond first second = true) :
    ∃ c third rest, utf8EncodeChar c = first :: second :: third :: rest := by
  -- Four bytes where the first allows it, and three otherwise.
  by_cases hfirst : 0xF0 ≤ first
  · have hthird : isContinuation 0x80 = true := by decide
    obtain ⟨c, fourth, hc⟩ := exists_encode_of_third h hfirst hthird
    exact ⟨c, 0x80, [fourth], hc⟩
  · rw [maySecond_iff] at h
    rw [UInt8.le_iff_toNat_le] at hfirst
    simp only [UInt8.reduceToNat] at hfirst
    obtain ⟨c, hc⟩ := exists_char
      (v := (first.toNat - 224) * 4096 + (second.toNat - 128) * 64) (by omega)
    refine ⟨c, 0x80, [], ?_⟩
    rw [String.utf8EncodeChar.eq_1, hc, if_neg (by omega), if_neg (by omega), if_pos (by omega)]
    simp only [List.cons.injEq, and_true, ← UInt8.toNat_inj, UInt8.toNat_ofNat',
      UInt8.reduceToNat]
    omega

end EarlyBoot.Text

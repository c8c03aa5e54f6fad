import EarlyBoot.Proofs.Text.Lines
import Mathlib.Algebra.Group.Nat.Defs
import Mathlib.Data.List.Basic

/-!
# `EarlyBoot.Proofs.Text.Columns`: what stands where in a line

The rows of a table line up if what stands in front of each cell is as wide in every row. A
hexadecimal number is, as long as it has no more digits than it was given room for: the zeros in
front make up for the digits that it lacks, and the `0x` is two characters more.

Main statements:

* `columns_append`, `columns_eq_nil` : the columns of a character in a line, part by part;
* `cut_append` : what stands between two columns;
* `length_hex` : a number that fits is as wide as its digits and two characters more.
-/

set_option autoImplicit false

namespace EarlyBoot.Text

/-! ### The columns of a character -/

/-- The columns that a character stands in. -/
def columns (mark : Char) (line : String) : List Nat :=
  line.toList.idxsOf mark

/-- Behind a text a character stands as many columns further on as the text is long. -/
theorem columns_append (mark : Char) (first second : String) :
    columns mark (first ++ second) =
      columns mark first ++ (columns mark second).map (· + first.length) := by
  have hshift : second.toList.idxsOf mark first.length =
      (second.toList.idxsOf mark).map (· + first.length) := List.idxsOf_start
  rw [columns, String.toList_append, List.idxsOf_append, Nat.zero_add, String.length_toList,
    hshift]
  rfl

/-- A character that a text does not have stands in no column of it. -/
theorem columns_eq_nil {mark : Char} {text : String} (h : mark ∉ text.toList) :
    columns mark text = [] := by
  rw [columns, List.idxsOf_eq_nil_iff]
  intro c hc
  rw [beq_eq_false_iff_ne]
  rintro rfl
  exact h hc

/-! ### What stands between two columns -/

/-- The `width` characters of a line from column `start` on. -/
def cut (line : String) (start width : Nat) : String :=
  String.ofList ((line.toList.drop start).take width)

/-- A text is cut out between what stands in front of it and behind it. -/
theorem cut_append {front text behind : String} {start width : Nat} (hstart : front.length = start)
    (hwidth : text.length = width) : cut (front ++ (text ++ behind)) start width = text := by
  rw [← String.length_toList] at hstart hwidth
  rw [cut, String.toList_append, String.toList_append, List.drop_left' hstart,
    List.take_left' hwidth, String.ofList_toList]

/-! ### Hexadecimal numbers -/

/-- A number that fits in `width` digits is shown in `width` digits and two characters more. -/
theorem length_hex {width n : Nat} (hwidth : 0 < width) (h : n < 16 ^ width) :
    (hex width n).length = width + 2 := by
  have hdigits : (Nat.toDigits 16 n).length ≤ width :=
    (Nat.length_toDigits_le_iff (by decide) hwidth).mpr h
  rw [hex, String.length_ofList, List.length_cons, List.length_cons, length_hexDigits hdigits]

end EarlyBoot.Text

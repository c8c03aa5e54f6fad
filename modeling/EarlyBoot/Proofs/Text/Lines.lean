import EarlyBoot.Text.Layout
import EarlyBoot.Text.Numeral

/-!
# `EarlyBoot.Proofs.Text.Lines`: texts that take one line

A list of lines is written with a line feed behind each. What was written has as many lines
as the list only if none of them has a line feed of its own. That is the case for numbers,
for words that were placed in a column, and for what is put together from such texts.

Main statements:

* `closedLines_unlines` : such lines are found again where the text is cut at its line feeds;
* `OneLine.append` : texts of one line one behind the other take one line;
* `oneLine_decimal`, `oneLine_hex`, `OneLine.alignRight` : numbers and columns.
-/

set_option autoImplicit false

namespace EarlyBoot.Text

/-- The text has no line feed. -/
def OneLine (text : String) : Prop :=
  '\n' ∉ text.toList

instance (text : String) : Decidable (OneLine text) :=
  inferInstanceAs (Decidable ('\n' ∉ text.toList))

/-- Two single lines in a row are a single line. -/
theorem OneLine.append {first second : String} (hfirst : OneLine first)
    (hsecond : OneLine second) : OneLine (first ++ second) := by
  rw [OneLine, String.toList_append, List.mem_append]
  exact fun h => h.elim hfirst hsecond

/-! ### Lines of a text -/

/-- The text is these lines, each closed by a line feed: cut at its line feeds it falls into the
lines, and nothing comes behind the last one. -/
def ClosedLines (text : String) (lines : List String) : Prop :=
  text.toList.splitOn '\n' = lines.map String.toList ++ [[]]

/-- Lines without a line feed of their own are the lines of the text that `unlines` makes of
them. -/
theorem closedLines_unlines {lines : List String} (h : ∀ line ∈ lines, OneLine line) :
    ClosedLines (unlines lines) lines := by
  induction lines with
  | nil => rfl
  | cons line lines ih =>
      -- A line holds no feed, so the first split is behind it.
      have hline : ∀ c ∈ line.toList, (c == '\n') = false := by
        intro c hc
        rw [beq_eq_false_iff_ne]
        rintro rfl
        exact h line List.mem_cons_self hc
      have hrest : ClosedLines (unlines lines) lines :=
        ih fun other hother => h other (List.mem_cons_of_mem line hother)
      have htext : (unlines (line :: lines)).toList =
          line.toList ++ '\n' :: (unlines lines).toList := by
        simp [unlines, String.join_cons]
      rw [ClosedLines, htext, List.splitOn,
        List.splitOnP_append_cons_of_forall_mem hline '\n' (by decide)]
      exact congrArg (line.toList :: ·) hrest

/-- A text has no other closed lines than its own. -/
theorem ClosedLines.unique {text : String} {lines others : List String}
    (h : ClosedLines text lines) (h' : ClosedLines text others) : lines = others := by
  have hsame : lines.map String.toList = others.map String.toList :=
    List.append_cancel_right (h.symm.trans h')
  exact List.map_inj_right (fun _ _ => String.toList_injective) |>.mp hsame

/-! ### Numbers -/

/-- The digits of a number contain no character that is not a digit. -/
theorem not_mem_toDigits {mark : Char} (hmark : ∀ d < 16, Nat.digitChar d ≠ mark) {base : Nat}
    (hleast : 1 < base) (hmost : base ≤ 16) (n : Nat) : mark ∉ Nat.toDigits base n := by
  induction n using Nat.strongRecOn with
  | ind n ih =>
      rw [Nat.toDigits_eq_if hleast]
      split
      · rename_i hlt
        rw [List.mem_singleton]
        exact (hmark n (by omega)).symm
      · rename_i hle
        -- The last digit is one of the base, and the digits in front are those of a smaller number.
        have hlast : n % base < base := Nat.mod_lt n (by omega)
        have hfront := ih (n / base) (Nat.div_lt_self (by omega) hleast)
        rw [List.mem_append, List.mem_singleton]
        exact fun h => h.elim hfront (hmark (n % base) (by omega)).symm

/-- A hexadecimal number contains digits and an x only. -/
theorem not_mem_hex {mark : Char} (hmark : ∀ d < 16, Nat.digitChar d ≠ mark) (hx : mark ≠ 'x')
    (width n : Nat) : mark ∉ (hex width n).toList := by
  have hdigits : mark ∉ Nat.toDigits 16 n :=
    not_mem_toDigits hmark (by decide) (by decide) n
  have hzero : mark ≠ '0' := (hmark 0 (by decide)).symm
  simp [hex, hexDigits, hdigits, hzero, hx]

/-- A decimal number is a single line. -/
theorem oneLine_decimal (n : Nat) : OneLine (decimal n) := by
  rw [OneLine, decimal, String.toList_ofList]
  exact not_mem_toDigits (by decide) (by decide) (by decide) n

/-- A hexadecimal number is a single line. -/
theorem oneLine_hex (width n : Nat) : OneLine (hex width n) :=
  not_mem_hex (by decide) (by decide) width n

/-! ### Columns -/

/-- Spaces are a single line. -/
theorem oneLine_spaces (count : Nat) : OneLine (spaces count) := by
  simp [OneLine, spaces]

/-- A single line stays one when it is filled up with spaces. -/
theorem OneLine.alignRight {word : String} (h : OneLine word) (width : Nat) :
    OneLine (alignRight width word) :=
  (oneLine_spaces _).append h

end EarlyBoot.Text

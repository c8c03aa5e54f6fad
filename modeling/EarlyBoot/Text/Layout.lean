/-!
# `EarlyBoot.Text.Layout`: lines and columns of text

Text is laid out in lines, each closed by a line feed, and in columns of a
given width, to the right or in the middle of which a word is placed. A word
that is wider than its column is written in full.

Main statements:

* `length_alignRight`, `length_centred` : a word that fits fills its column exactly.
-/

set_option autoImplicit false

namespace EarlyBoot.Text

/-- The lines, each closed by a line feed. -/
def unlines (lines : List String) : String :=
  String.join (lines.map (· ++ "\n"))

def spaces (count : Nat) : String :=
  String.ofList (List.replicate count ' ')

/-- `word` at the right end of a column of `width` characters. -/
def alignRight (width : Nat) (word : String) : String :=
  spaces (width - word.length) ++ word

/-- `word` in the middle of a column of `width` characters; of an odd number of
spaces the smaller half comes first. -/
def centred (width : Nat) (word : String) : String :=
  let room := width - word.length
  spaces (room / 2) ++ word ++ spaces (room - room / 2)

/-- A row of spaces has as many characters as were asked for. -/
@[simp]
theorem length_spaces (count : Nat) : (spaces count).length = count := by
  simp [spaces]

/-- Take a word that fits in `width`. Then `alignRight` fills it up to exactly `width`
characters. -/
theorem length_alignRight {width : Nat} {word : String} (h : word.length ≤ width) :
    (alignRight width word).length = width := by
  simp only [alignRight, String.length_append, length_spaces]
  omega

/-- Take a word that fits in `width`. Then `centred` fills it up to exactly `width` characters, with
the odd space behind it. -/
theorem length_centred {width : Nat} {word : String} (h : word.length ≤ width) :
    (centred width word).length = width := by
  simp only [centred, String.length_append, length_spaces]
  omega

end EarlyBoot.Text

import EarlyBoot.Screen.Console

/-!
# `EarlyBoot.Screen.Sheet`: text on an endless sheet

A sheet of paper has a fixed number of columns and no last line. What is written
on a console can be written on a sheet as well: a new line always goes one line
down, and nothing ever scrolls. Of the sheet a window of as many lines as the
screen has is seen, with the line of the cursor at its bottom once the sheet is
longer than the window. `Sheet.color` is the colour of a pixel of that window.

A line that has not been printed on shows its ground. The lines that the window
shows at first have the ground of the whole sheet; any other line takes the
background colour in force when it is reached.
-/

set_option autoImplicit false

namespace EarlyBoot.Screen

/-- A character on a sheet, with its colours. -/
structure Print where
  char : Char
  ink : Color
  paper : Color
  deriving DecidableEq, Repr

/-- A sheet of paper without a last line. -/
structure Sheet where
  /-- Characters in a line. -/
  columns : Nat
  /-- Lines in the window. -/
  rows : Nat
  /-- What was printed last in a column of a line. -/
  prints : Nat → Nat → Option Print
  /-- Ground of each line that has been reached. -/
  grounds : Nat → Color
  /-- Ground of the sheet. -/
  ground : Color
  /-- Column of the next character. -/
  column : Nat
  /-- Line of the next character. -/
  line : Nat
  /-- Colour that characters are printed in. -/
  ink : Color
  /-- Colour that characters are printed on. -/
  paper : Color

namespace Sheet

/-- An empty sheet behind a screen, in the colours of a console. -/
def blank (g : Geometry) (ink paper : Color) : Sheet where
  columns := g.columns
  rows := g.rows
  prints := fun _ _ => none
  grounds := fun _ => paper
  ground := paper
  column := 0
  line := 0
  ink
  paper

/-- Chooses the colours of what is printed from now on. -/
def setColors (s : Sheet) (ink paper : Color) : Sheet :=
  { s with ink, paper }

/-- Goes on to the start of the next line. -/
def newline (s : Sheet) : Sheet :=
  { s with
    column := 0
    line := s.line + 1
    grounds := fun l =>
      if l = s.line + 1 ∧ s.rows ≤ s.line + 1 then s.paper else s.grounds l }

/-- Goes on to the next tab stop, or to the next line if there is none. -/
def tab (s : Sheet) : Sheet :=
  let stop := (s.column / tabWidth + 1) * tabWidth
  if s.columns ≤ stop then s.newline else { s with column := stop }

/-- Prints a character at the cursor and goes on by one column. -/
def printHere (s : Sheet) (ch : Char) : Sheet :=
  { s with
    prints := fun c l =>
      if c = s.column ∧ l = s.line then some ⟨ch, s.ink, s.paper⟩ else s.prints c l
    column := s.column + 1 }

/-- Writes one character. -/
def putChar (s : Sheet) (ch : Char) : Sheet :=
  match ch with
  | '\n' => s.newline
  | '\r' => { s with column := 0 }
  | '\t' => s.tab
  | ch   => if s.columns ≤ s.column then s.newline.printHere ch else s.printHere ch

/-- Writes a text, character by character. -/
def write (s : Sheet) (text : String) : Sheet :=
  text.toList.foldl putChar s

/-- Writes a text behind the label of its status, in the colour of the status. -/
def status (s : Sheet) (status : Status) (text : String) : Sheet :=
  ((s.setColors status.color s.paper).write (status.label ++ text)).setColors s.ink s.paper

/-- Follows one instruction. Pixels that are painted by hand leave no trace. -/
def follow (s : Sheet) : Console.Instruction → Sheet
  | .fill _              => s
  | .clear               => s
  | .putPixel _ _ _      => s
  | .putChar ch          => s.putChar ch
  | .write text          => s.write text
  | .newline             => s.newline
  | .setColors ink paper => s.setColors ink paper
  | .status status text  => s.status status text

def run (s : Sheet) (instructions : List Console.Instruction) : Sheet :=
  instructions.foldl follow s

/-- First line of the window. -/
def top (s : Sheet) : Nat := s.line - (s.rows - 1)

/-- Where the next character goes, as column and line of the window. -/
def cursor (s : Sheet) : Nat × Nat := (s.column, s.line - s.top)

/-- The colour of a pixel of the window; below its lines there is only ground. -/
def color (s : Sheet) (x y : Nat) : Color :=
  if y < s.rows * glyphHeight then
    let line := s.top + y / glyphHeight
    match s.prints (x / glyphWidth) line with
    | none       => s.grounds line
    | some print =>
        if Font.isSet print.char (x % glyphWidth) (y % glyphHeight) then print.ink
        else print.paper
  else
    s.ground

end Sheet

end EarlyBoot.Screen

import EarlyBoot.Screen.Canvas

/-!
# `EarlyBoot.Screen.Console`: text on a screen

A console writes characters into cells of 8 by 16 pixels, from left to right and
from top to bottom. A line feed starts a new line, a carriage return goes back to
the start of the line, and a tab goes on to the next multiple of four columns. A
character that finds no room in its line starts a new one; below the last line
the text scrolls up. On a screen without room for one cell no text is drawn.

Main statements:

* `write_append` : writing two texts is writing them one after the other;
* `putChar_of_no_cell` : without room for a cell a character has no effect;
* `newline_of_lt`, `newline_of_le` : a new line above the last text line, and on it.
-/

set_option autoImplicit false

namespace EarlyBoot.Screen

/-- A tab goes on to the next multiple of this many columns. -/
def tabWidth : Nat := 4

/-- What a status line is about. -/
inductive Status where
  | info
  | ok
  | warn
  deriving DecidableEq, Repr

/-- The label in front of a status line. -/
def Status.label : Status → String
  | .info => "[INFO] "
  | .ok   => "[ OK ] "
  | .warn => "[WARN] "

/-- The colour of a status line. -/
def Status.color : Status → Color
  | .info => .white
  | .ok   => .green
  | .warn => .yellow

/-- A console on a screen. -/
structure Console where
  geometry : Geometry
  canvas : Canvas geometry
  /-- Column of the next character. -/
  column : Nat := 0
  /-- Text line of the next character. -/
  line : Nat := 0
  /-- Colour that characters are drawn in. -/
  ink : Color := .white
  /-- Colour that characters are drawn on. -/
  paper : Color := .black
  deriving DecidableEq

namespace Console

/-- A console on memory that holds the screen, white on black from the first cell on. -/
def onPixels (geometry : Geometry) (pixels : ByteArray) : Except ConsoleError Console :=
  if h : geometry.size ≤ pixels.size then
    .ok { geometry, canvas := ⟨pixels, h⟩ }
  else
    .error (.bufferTooSmall pixels.size geometry.size)

def pixels (c : Console) : ByteArray := c.canvas.pixels

/-- Where the next character goes, as column and text line. -/
def cursor (c : Console) : Nat × Nat := (c.column, c.line)

/-- Chooses the colours of what is drawn from now on. -/
def setColors (c : Console) (ink paper : Color) : Console :=
  { c with ink, paper }

def fill (c : Console) (color : Color) : Console :=
  { c with canvas := c.canvas.fill color }

/-- Paints the whole screen in the background colour and goes back to the first cell. -/
def clear (c : Console) : Console :=
  { c with canvas := c.canvas.fill c.paper, column := 0, line := 0 }

/-- Paints one pixel; a pixel outside the screen is left out. -/
def putPixel (c : Console) (x y : Nat) (color : Color) : Console :=
  { c with canvas := c.canvas.putPixel x y color }

/-- Goes on to the start of the next text line, scrolling below the last one. -/
def newline (c : Console) : Console :=
  if h : 0 < c.geometry.rows then
    if c.line + 1 < c.geometry.rows then
      { c with column := 0, line := c.line + 1 }
    else
      { c with canvas := c.canvas.scroll c.paper h, column := 0 }
  else
    c

/-- Goes on to the next tab stop, or to the next line if there is none. -/
def tab (c : Console) : Console :=
  let stop := (c.column / tabWidth + 1) * tabWidth
  if c.geometry.columns ≤ stop then c.newline else { c with column := stop }

/-- Draws a character at the cursor and goes on by one column. -/
def printHere (c : Console) (ch : Char) : Console :=
  { c with
    canvas := c.canvas.drawGlyph ch c.column c.line c.ink c.paper
    column := c.column + 1 }

/-- Draws a character, on a new line if the current one is full. -/
def print (c : Console) (ch : Char) : Console :=
  if c.geometry.columns ≤ c.column then c.newline.printHere ch else c.printHere ch

def putChar (c : Console) (ch : Char) : Console :=
  if c.geometry.columns = 0 ∨ c.geometry.rows = 0 then
    c
  else
    match ch with
    | '\n' => c.newline
    | '\r' => { c with column := 0 }
    | '\t' => c.tab
    | ch   => c.print ch

def write (c : Console) (text : String) : Console :=
  text.toList.foldl putChar c

/-- Writes a text behind the label of its status, in the colour of the status. -/
def status (c : Console) (status : Status) (text : String) : Console :=
  let ink := c.ink
  let paper := c.paper
  ((c.setColors status.color paper).write (status.label ++ text)).setColors ink paper

/-- What a console can be told to do. -/
inductive Instruction where
  | fill (color : Color)
  | clear
  | putPixel (x y : Nat) (color : Color)
  | putChar (ch : Char)
  | write (text : String)
  | newline
  | setColors (ink paper : Color)
  | status (status : Status) (text : String)
  deriving DecidableEq, Repr

/-- Whether an instruction is about text, and not about painting pixels. -/
def Instruction.isText : Instruction → Bool
  | .fill _ | .clear | .putPixel _ _ _ => false
  | .putChar _ | .write _ | .newline | .setColors _ _ | .status _ _ => true

def follow (c : Console) : Instruction → Console
  | .fill color          => c.fill color
  | .clear               => c.clear
  | .putPixel x y color  => c.putPixel x y color
  | .putChar ch          => c.putChar ch
  | .write text          => c.write text
  | .newline             => c.newline
  | .setColors ink paper => c.setColors ink paper
  | .status status text  => c.status status text

def run (c : Console) (instructions : List Instruction) : Console :=
  instructions.foldl follow c

/-- Writing two texts in one call of `write` is writing them one after the other. -/
theorem write_append (c : Console) (s t : String) : c.write (s ++ t) = (c.write s).write t := by
  simp [write]

/-- Take a screen that is narrower or lower than one cell. Then `putChar` returns the console as it
was, also for a line feed. -/
theorem putChar_of_no_cell {c : Console} (h : c.geometry.columns = 0 ∨ c.geometry.rows = 0)
    (ch : Char) : c.putChar ch = c := by
  simp [putChar, h]

/-- Take a character that is neither a line feed nor a carriage return nor a tab, on a screen with
room for a cell. Then `putChar` is `print`. -/
theorem putChar_of_print {c : Console} {ch : Char}
    (hcell : ¬ (c.geometry.columns = 0 ∨ c.geometry.rows = 0)) (hfeed : ch ≠ '\n')
    (hreturn : ch ≠ '\r') (htab : ch ≠ '\t') : c.putChar ch = c.print ch := by
  unfold putChar
  rw [if_neg hcell]
  split
  · exact absurd rfl hfeed
  · exact absurd rfl hreturn
  · exact absurd rfl htab
  · rfl

/-! ### A new line -/

/-- Take a screen that is lower than one cell. Then `newline` returns the console as it was. -/
theorem newline_of_no_row {c : Console} (h : c.geometry.rows = 0) : c.newline = c := by
  rw [newline, dif_neg (by omega)]

/-- Take a cursor above the last text line. Then `newline` moves it to the start of the next line
and paints nothing. -/
theorem newline_of_lt {c : Console} (h : c.line + 1 < c.geometry.rows) :
    c.newline = { c with column := 0, line := c.line + 1 } := by
  rw [newline, dif_pos (by omega), if_pos h]

/-- Take a cursor on the last text line. Then `newline` scrolls the canvas and moves the cursor to
the start of the same line. -/
theorem newline_of_le {c : Console} (hrows : 0 < c.geometry.rows)
    (h : c.geometry.rows ≤ c.line + 1) :
    c.newline = { c with canvas := c.canvas.scroll c.paper hrows, column := 0 } := by
  rw [newline, dif_pos hrows, if_neg (by omega)]

/-- A `newline` keeps the shape of the screen, with or without a scroll. -/
@[simp]
theorem geometry_newline (c : Console) : c.newline.geometry = c.geometry := by
  unfold newline
  split
  · split <;> rfl
  · rfl

end Console

end EarlyBoot.Screen

import EarlyBoot.Screen.Console

/-!
# `EarlyBoot.Screen.Checked`: drawing in words, with traps

A console counts in natural numbers, and its canvas only admits accesses that are
inside the screen. The machine counts in words of 64 bits, and touches the bytes
that an index comes to. Here a console draws the way the machine does: each sum,
product and difference on the way to the screen has to be a word, and each stretch
of bytes is compared with the screen before it is touched. The first of them that
does not hold up is a trap, and the drawing ends there.

A pixel beside the screen is left out, as on a console; one on the screen whose
bytes are not bytes of the screen is a trap, and not left out.
-/

set_option autoImplicit false

namespace EarlyBoot.Screen

/-- Why a drawing ends early. -/
inductive Trap where
  /-- A sum, a product or a difference is not a word. -/
  | overflow
  /-- The bytes from `first` up to `last` are not all bytes of the screen. -/
  | outside (first last : Nat)
  deriving DecidableEq, Repr

namespace Checked

/-! ### Words -/

def add (a b : Nat) : Except Trap Nat :=
  if a + b < addressSpace then .ok (a + b) else .error .overflow

def mul (a b : Nat) : Except Trap Nat :=
  if a * b < addressSpace then .ok (a * b) else .error .overflow

def sub (a b : Nat) : Except Trap Nat :=
  if b ≤ a then .ok (a - b) else .error .overflow

/-! ### Pixels and rows -/

section Canvas

variable {g : Geometry}

/-- Overwrites bytes, which have to be bytes of the screen. -/
def overwrite (canvas : Canvas g) (first : Nat) (bytes : ByteArray) : Except Trap (Canvas g) := do
  let last ← add first bytes.size
  if h : first + bytes.size ≤ g.size then
    return canvas.write first bytes h
  else
    throw (.outside first last)

/-- Paints one pixel; a pixel outside the screen is left out. -/
def putPixel (canvas : Canvas g) (x y : Nat) (color : Color) : Except Trap (Canvas g) := do
  if g.width ≤ x ∨ g.height ≤ y then
    return canvas
  else
    let row ← mul y g.pitch
    let inRow ← mul x g.depth.bytes
    let first ← add row inRow
    overwrite canvas first (g.pixel color)

/-- Paints a row. Its pixels have to end before the next row starts. -/
def fillRow (canvas : Canvas g) (y : Nat) (color : Color) : Except Trap (Canvas g) := do
  let rowBytes ← mul g.width g.depth.bytes
  let first ← mul y g.pitch
  if g.pitch < rowBytes then
    throw (.outside first (first + rowBytes))
  else
    overwrite canvas first (Canvas.plainRow g color)

/-- Paints the rows from `first` up to `last`, the latter excluded; rows below the
screen are left out. -/
def fillRows (canvas : Canvas g) (first last : Nat) (color : Color) : Except Trap (Canvas g) :=
  (List.range (min last g.height - first)).foldlM
    (fun canvas i => fillRow canvas (first + i) color) canvas

/-- Draws a character into the cell in a column of a text line. -/
def drawGlyph (canvas : Canvas g) (c : Char) (column line : Nat) (ink paper : Color) :
    Except Trap (Canvas g) := do
  let left ← mul column glyphWidth
  let top ← mul line glyphHeight
  (List.range glyphHeight).foldlM
    (fun canvas y =>
      (List.range glyphWidth).foldlM
        (fun canvas x => do
          putPixel canvas (← add left x) (← add top y) (if Font.isSet c x y then ink else paper))
        canvas)
    canvas

/-- Moves all text lines but the first up by one, with the bytes between rows. -/
def shiftLines (canvas : Canvas g) : Except Trap (Canvas g) := do
  let first ← mul g.pitch glyphHeight
  let last ← mul g.rows first
  if h : first ≤ last ∧ last ≤ g.size then
    return {
      pixels := Bytes.moveToFront canvas.pixels first (last - first)
      size_le := by
        have hle := canvas.size_le
        rw [Bytes.size_moveToFront (by omega)]
        exact hle
    }
  else
    throw (.outside first last)

/-- Moves all text lines but the first up by one and blanks the last one. -/
def scroll (canvas : Canvas g) (paper : Color) : Except Trap (Canvas g) := do
  let shifted ← shiftLines canvas
  let lines ← sub g.rows 1
  let top ← mul lines glyphHeight
  let bottom ← add top glyphHeight
  fillRows shifted top bottom paper

end Canvas

/-! ### Text -/

/-- Goes on to the start of the next text line, scrolling below the last one. -/
def newline (c : Console) : Except Trap Console := do
  if c.geometry.rows = 0 then
    return c
  else
    let next ← add c.line 1
    if next < c.geometry.rows then
      return { c with column := 0, line := next }
    else
      let canvas ← scroll c.canvas c.paper
      return { c with canvas, column := 0 }

/-- Goes on to the next tab stop, or to the next line if there is none. -/
def tab (c : Console) : Except Trap Console := do
  let stops ← add (c.column / tabWidth) 1
  let stop ← mul stops tabWidth
  if c.geometry.columns ≤ stop then
    newline c
  else
    return { c with column := stop }

/-- Draws a character at the cursor and goes on by one column. -/
def printHere (c : Console) (ch : Char) : Except Trap Console := do
  let canvas ← drawGlyph c.canvas ch c.column c.line c.ink c.paper
  let column ← add c.column 1
  return { c with canvas, column }

/-- Draws a character, on a new line if the current one is full. -/
def print (c : Console) (ch : Char) : Except Trap Console := do
  if c.geometry.columns ≤ c.column then
    let d ← newline c
    printHere d ch
  else
    printHere c ch

def putChar (c : Console) (ch : Char) : Except Trap Console :=
  if c.geometry.columns = 0 ∨ c.geometry.rows = 0 then
    return c
  else
    match ch with
    | '\n' => newline c
    | '\r' => return { c with column := 0 }
    | '\t' => tab c
    | ch   => print c ch

def write (c : Console) (text : String) : Except Trap Console :=
  text.toList.foldlM putChar c

/-- Writes a text behind the label of its status, in the colour of the status. -/
def status (c : Console) (status : Status) (text : String) : Except Trap Console := do
  let d ← write (c.setColors status.color c.paper) (status.label ++ text)
  return d.setColors c.ink c.paper

/-! ### Instructions -/

def fill (c : Console) (color : Color) : Except Trap Console := do
  let canvas ← fillRows c.canvas 0 c.geometry.height color
  return { c with canvas }

/-- Follows one instruction, or traps. -/
def follow (c : Console) : Console.Instruction → Except Trap Console
  | .fill color          => fill c color
  | .clear               => do
      let d ← fill c c.paper
      return { d with column := 0, line := 0 }
  | .putPixel x y color  => do
      let canvas ← putPixel c.canvas x y color
      return { c with canvas }
  | .putChar ch          => putChar c ch
  | .write text          => write c text
  | .newline             => newline c
  | .setColors ink paper => return c.setColors ink paper
  | .status label text   => status c label text

/-- Follows instructions until one of them traps. -/
def run (c : Console) (instructions : List Console.Instruction) : Except Trap Console :=
  instructions.foldlM follow c

end Checked

end EarlyBoot.Screen

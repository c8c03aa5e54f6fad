import EarlyBoot.Bytes.Splice
import EarlyBoot.Screen.Geometry

/-!
# `EarlyBoot.Screen.Canvas`: drawing on the bytes of a screen

A canvas is memory that holds a screen, and possibly more bytes behind it. That
it is large enough travels with it, so every access below is inside the screen
by construction: a pixel, a row of pixels, and the stretch that a scroll moves.
Bytes between the end of a row and the start of the next are never painted.

Main statements:

* `size_putPixel`, `getElem?_putPixel` : the bytes after one pixel was painted;
* `size_fillRows`, `size_drawGlyph`, `size_scroll` : no operation changes the
  number of bytes.
-/

set_option autoImplicit false

namespace EarlyBoot.Screen

/-- Memory that holds a screen. -/
structure Canvas (g : Geometry) where
  /-- The bytes of the screen, and possibly more. -/
  pixels : ByteArray
  /-- The screen fits. -/
  size_le : g.size ≤ pixels.size
  deriving DecidableEq

namespace Canvas

variable {g : Geometry}

/-- The bytes of one pixel. -/
def pixelAt (canvas : Canvas g) (x y : Nat) : ByteArray :=
  canvas.pixels.extract (g.offset x y) (g.offset x y + g.depth.bytes)

/-- Overwrites bytes that lie inside the screen. -/
def write (canvas : Canvas g) (offset : Nat) (bytes : ByteArray)
    (h : offset + bytes.size ≤ g.size) : Canvas g where
  pixels := Bytes.splice canvas.pixels offset bytes
  size_le := by
    rw [Bytes.size_splice (Nat.le_trans h canvas.size_le)]
    exact canvas.size_le

/-- Paints one pixel; a pixel outside the screen is left out. -/
def putPixel (canvas : Canvas g) (x y : Nat) (color : Color) : Canvas g :=
  if h : x < g.width ∧ y < g.height then
    canvas.write (g.offset x y) (g.pixel color) (by
      rw [g.size_pixel]
      exact g.offset_add_le h.1 h.2)
  else
    canvas

/-- Overwrites the pixels of a row. -/
def putRow (canvas : Canvas g) (y : Nat) (row : ByteArray) (hy : y < g.height)
    (hrow : row.size = g.rowBytes) : Canvas g :=
  canvas.write (y * g.pitch) row (by
    rw [hrow]
    exact g.row_add_le hy)

/-- The pixels of a row in one colour. -/
def plainRow (g : Geometry) (color : Color) : ByteArray :=
  Bytes.repeated (g.pixel color) g.width

/-- A row in one colour has the bytes of `Geometry.rowBytes`: one pixel for each column, and no
padding. -/
theorem size_plainRow (g : Geometry) (color : Color) : (plainRow g color).size = g.rowBytes := by
  simp [plainRow, Geometry.rowBytes]

/-- Paints the rows from `first` up to `last`, the latter excluded; rows below the
screen are left out. -/
def fillRows (canvas : Canvas g) (first last : Nat) (color : Color) : Canvas g :=
  let row := plainRow g color
  Nat.fold (min last g.height - first) (fun i hi canvas =>
      canvas.putRow (first + i) row (by omega) (size_plainRow g color))
    canvas

def fill (canvas : Canvas g) (color : Color) : Canvas g :=
  canvas.fillRows 0 g.height color

/-- Draws a character into the cell in a column of a text line. -/
def drawGlyph (canvas : Canvas g) (c : Char) (column line : Nat) (ink paper : Color) : Canvas g :=
  Nat.fold glyphHeight (fun y _ canvas =>
      Nat.fold glyphWidth (fun x _ canvas =>
          canvas.putPixel (column * glyphWidth + x) (line * glyphHeight + y)
            (if Font.isSet c x y then ink else paper))
        canvas)
    canvas

/-- Moves all text lines but the first up by one, with the bytes between rows. -/
def shiftLines (canvas : Canvas g) (h : 0 < g.rows) : Canvas g where
  pixels := Bytes.moveToFront canvas.pixels g.lineBytes ((g.rows - 1) * g.lineBytes)
  size_le := by
    rw [Bytes.size_moveToFront]
    · exact canvas.size_le
    · have hlines := g.lines_le
      have hsplit : g.lineBytes + (g.rows - 1) * g.lineBytes = g.rows * g.lineBytes := by
        conv => rhs; rw [show g.rows = g.rows - 1 + 1 by omega, Nat.succ_mul]
        exact Nat.add_comm _ _
      have := canvas.size_le
      omega

/-- Moves all text lines but the first up by one and blanks the last one. -/
def scroll (canvas : Canvas g) (paper : Color) (h : 0 < g.rows) : Canvas g :=
  (canvas.shiftLines h).fillRows ((g.rows - 1) * glyphHeight) (g.rows * glyphHeight) paper

/-! ### Numbers of bytes -/

/-- A `write` inside the screen keeps the number of bytes. -/
@[simp]
theorem size_write (canvas : Canvas g) (offset : Nat) (bytes : ByteArray)
    (h : offset + bytes.size ≤ g.size) :
    (canvas.write offset bytes h).pixels.size = canvas.pixels.size :=
  Bytes.size_splice (Nat.le_trans h canvas.size_le)

/-- Painting a pixel keeps the number of bytes, also where the pixel lies outside the screen. -/
@[simp]
theorem size_putPixel (canvas : Canvas g) (x y : Nat) (color : Color) :
    (canvas.putPixel x y color).pixels.size = canvas.pixels.size := by
  unfold putPixel
  split
  · exact size_write _ _ _ _
  · rfl

/-- Painting a row keeps the number of bytes. -/
@[simp]
theorem size_putRow (canvas : Canvas g) (y : Nat) (row : ByteArray) (hy : y < g.height)
    (hrow : row.size = g.rowBytes) :
    (canvas.putRow y row hy hrow).pixels.size = canvas.pixels.size :=
  size_write _ _ _ _

/-- Take steps that each keep the number of bytes. Then a `Nat.fold` over them keeps it too, which
is how the loops over rows and glyph pixels are covered. -/
theorem size_fold (n : Nat) (step : (i : Nat) → i < n → Canvas g → Canvas g)
    (h : ∀ i hi (c : Canvas g), (step i hi c).pixels.size = c.pixels.size) (canvas : Canvas g) :
    (Nat.fold n step canvas).pixels.size = canvas.pixels.size := by
  induction n with
  | zero => rfl
  | succ n ih => rw [Nat.fold_succ, h, ih _ fun i hi c => h i _ c]

/-- Filling rows keeps the number of bytes, whichever rows are asked for. -/
@[simp]
theorem size_fillRows (canvas : Canvas g) (first last : Nat) (color : Color) :
    (canvas.fillRows first last color).pixels.size = canvas.pixels.size :=
  size_fold _ _ (fun _ _ _ => size_putRow _ _ _ _ _) canvas

/-- Drawing a character keeps the number of bytes, also in a cell that is partly off the screen. -/
@[simp]
theorem size_drawGlyph (canvas : Canvas g) (c : Char) (column line : Nat) (ink paper : Color) :
    (canvas.drawGlyph c column line ink paper).pixels.size = canvas.pixels.size :=
  size_fold _ _ (fun _ _ _ => size_fold _ _ (fun _ _ _ => size_putPixel _ _ _ _) _) canvas

/-- Moving the text lines up keeps the number of bytes. -/
@[simp]
theorem size_shiftLines (canvas : Canvas g) (h : 0 < g.rows) :
    (canvas.shiftLines h).pixels.size = canvas.pixels.size := by
  apply Bytes.size_moveToFront
  have hlines := g.lines_le
  have hsplit := g.rows_mul_eq h g.lineBytes
  have := canvas.size_le
  omega

/-- Scrolling keeps the number of bytes, since `shiftLines` and `fillRows` both do. -/
@[simp]
theorem size_scroll (canvas : Canvas g) (paper : Color) (h : 0 < g.rows) :
    (canvas.scroll paper h).pixels.size = canvas.pixels.size := by
  simp [scroll]

/-! ### One pixel -/

/-- Take a pixel of the screen. Then `putPixel` puts the bytes of `Geometry.pixel` at its offset,
and no other byte of the canvas changes. -/
theorem getElem?_putPixel (canvas : Canvas g) {x y : Nat} (color : Color) (hx : x < g.width)
    (hy : y < g.height) (i : Nat) :
    (canvas.putPixel x y color).pixels[i]? =
      if g.offset x y ≤ i ∧ i < g.offset x y + g.depth.bytes then
        (g.pixel color)[i - g.offset x y]?
      else
        canvas.pixels[i]? := by
  have hle : g.offset x y + (g.pixel color).size ≤ canvas.pixels.size := by
    rw [g.size_pixel]
    exact Nat.le_trans (g.offset_add_le hx hy) canvas.size_le
  have h : x < g.width ∧ y < g.height := ⟨hx, hy⟩
  simp only [putPixel, h, and_self, dite_true, write]
  rw [Bytes.getElem?_splice hle]
  simp only [g.size_pixel]

end Canvas

end EarlyBoot.Screen

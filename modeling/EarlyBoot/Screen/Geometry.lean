import EarlyBoot.Bytes.LittleEndian
import EarlyBoot.Record.Framebuffer
import EarlyBoot.Screen.Color
import EarlyBoot.Screen.Font

/-!
# `EarlyBoot.Screen.Geometry`: the shape of a screen

A screen is a grid of pixels. Its rows follow each other at a fixed distance,
which may exceed the bytes that the pixels of a row take; a pixel takes two,
three or four bytes. What makes a screen usable travels with its shape: it has
pixels, its rows do not overlap, and its size fits the address space.

A surface is a screen at an address, all of whose bytes can be addressed.

Main statements:

* `offset_add_le` : the bytes of every pixel lie inside the screen;
* `rows_mul_le` : the text lines lie inside the screen.
-/

set_option autoImplicit false

namespace EarlyBoot.Screen

open Text

/-- Number of addresses. -/
def addressSpace : Nat := UInt64.size

/-- Why a framebuffer cannot be drawn on. -/
inductive ConsoleError where
  | unsupportedDepth (bits : UInt8)
  | noPixels (width height : UInt32)
  | pitchTooSmall (pitch : UInt32) (rowBytes : Nat)
  | tooLarge
  | addressOutOfRange (address : UInt64)
  | bufferTooSmall (length needed : Nat)
  deriving DecidableEq, Repr

def ConsoleError.message : ConsoleError → String
  | .unsupportedDepth bits =>
      "unsupported color depth of " ++ decimal bits.toNat ++ " bits per pixel"
  | .noPixels width height =>
      "framebuffer of " ++ decimal width.toNat ++ "x" ++ decimal height.toNat ++
        " pixels has no visible area"
  | .pitchTooSmall pitch rowBytes =>
      "pitch of " ++ decimal pitch.toNat ++ " bytes is shorter than a " ++ decimal rowBytes ++
        "-byte row"
  | .tooLarge => "framebuffer dimensions overflow the address space"
  | .addressOutOfRange address =>
      "framebuffer address " ++ hex 0 address.toNat ++ " is not addressable"
  | .bufferTooSmall length needed =>
      "pixel buffer of " ++ decimal length ++ " bytes is smaller than the " ++ decimal needed ++
        " bytes required"

/-- How many bits a pixel takes. -/
inductive Depth where
  | bits16
  | bits24
  | bits32
  deriving DecidableEq, Repr

namespace Depth

def bytes : Depth → Nat
  | .bits16 => 2
  | .bits24 => 3
  | .bits32 => 4

/-- The depth of a number of bits, if it can be drawn in. -/
def ofBits? (bits : UInt8) : Option Depth :=
  if bits = 16 then some .bits16
  else if bits = 24 then some .bits24
  else if bits = 32 then some .bits32
  else none

/-- A pixel of any depth takes some bytes. -/
theorem bytes_pos (depth : Depth) : 0 < depth.bytes := by
  cases depth <;> decide

/-- A pixel of any depth fits in the four bytes of an encoded colour. -/
theorem bytes_le_four (depth : Depth) : depth.bytes ≤ 4 := by
  cases depth <;> decide

end Depth

/-- The shape of a screen that can be drawn on. -/
structure Geometry where
  width : Nat
  height : Nat
  /-- Bytes from one row to the next. -/
  pitch : Nat
  depth : Depth
  layout : PixelLayout
  width_pos : 0 < width
  height_pos : 0 < height
  /-- Rows do not overlap. -/
  row_le_pitch : width * depth.bytes ≤ pitch
  /-- The screen fits the address space. -/
  size_lt : pitch * height < addressSpace
  deriving DecidableEq

/-- Of two units of `n` bytes at `i` and `j` units from the start, the first ends before the second
starts. -/
theorem mul_add_le_mul_of_lt {i j : Nat} (h : i < j) (n : Nat) : i * n + n ≤ j * n := by
  rw [← Nat.succ_mul]
  exact Nat.mul_le_mul_right n h

namespace Geometry

/-- The shape of a screen, checked. -/
def ofMode (width height pitch : UInt32) (bits : UInt8) (layout : PixelLayout) :
    Except ConsoleError Geometry :=
  match Depth.ofBits? bits with
  | none       => .error (.unsupportedDepth bits)
  | some depth =>
      if hpixels : width = 0 ∨ height = 0 then
        .error (.noPixels width height)
      else if addressSpace ≤ width.toNat * depth.bytes then
        .error .tooLarge
      else if hrow : pitch.toNat < width.toNat * depth.bytes then
        .error (.pitchTooSmall pitch (width.toNat * depth.bytes))
      else if hsize : addressSpace ≤ pitch.toNat * height.toNat then
        .error .tooLarge
      else
        .ok {
          width := width.toNat
          height := height.toNat
          pitch := pitch.toNat
          depth
          layout
          width_pos := Nat.pos_of_ne_zero fun h => hpixels (.inl (UInt32.toNat_inj.mp h))
          height_pos := Nat.pos_of_ne_zero fun h => hpixels (.inr (UInt32.toNat_inj.mp h))
          row_le_pitch := Nat.not_lt.mp hrow
          size_lt := Nat.not_le.mp hsize
        }

/-- The shape of the screen that a framebuffer describes. -/
def ofFramebuffer (fb : Framebuffer) : Except ConsoleError Geometry :=
  ofMode fb.width fb.height fb.pitch fb.depth fb.layout

/-- Bytes of the screen. -/
def size (g : Geometry) : Nat := g.pitch * g.height

/-- Bytes that the pixels of a row take. -/
def rowBytes (g : Geometry) : Nat := g.width * g.depth.bytes

/-- Character cells in a text line. -/
def columns (g : Geometry) : Nat := g.width / glyphWidth

def rows (g : Geometry) : Nat := g.height / glyphHeight

/-- Bytes of a text line. -/
def lineBytes (g : Geometry) : Nat := g.pitch * glyphHeight

/-- Offset of the pixel in column `x` and row `y`. -/
def offset (g : Geometry) (x y : Nat) : Nat := y * g.pitch + x * g.depth.bytes

/-- The bytes of a pixel in a colour. -/
def pixel (g : Geometry) (color : Color) : ByteArray :=
  (Bytes.le32 (g.layout.encode color.r color.g color.b)).extract 0 g.depth.bytes

/-- The bytes of one pixel are as many as its depth says, whatever the layout. -/
@[simp]
theorem size_pixel (g : Geometry) (color : Color) : (g.pixel color).size = g.depth.bytes := by
  have := g.depth.bytes_le_four
  simp only [pixel, Bytes.le32, ByteArray.size_extract, Bytes.size_encode]
  omega

/-- The bytes of every row, padding left out, lie inside the screen. -/
theorem row_add_le (g : Geometry) {y : Nat} (hy : y < g.height) :
    y * g.pitch + g.rowBytes ≤ g.size := by
  have hrow : g.rowBytes ≤ g.pitch := g.row_le_pitch
  have hnext := mul_add_le_mul_of_lt hy g.pitch
  rw [Nat.mul_comm g.height] at hnext
  exact Nat.le_trans (Nat.add_le_add_left hrow _) hnext

/-- The bytes of every pixel of a row are among the `rowBytes` that its pixels take. -/
theorem column_add_le (g : Geometry) {x : Nat} (hx : x < g.width) :
    x * g.depth.bytes + g.depth.bytes ≤ g.rowBytes :=
  mul_add_le_mul_of_lt hx g.depth.bytes

/-- The bytes of every pixel lie inside the screen. This is what `Canvas.putPixel` needs to write
them. -/
theorem offset_add_le (g : Geometry) {x y : Nat} (hx : x < g.width) (hy : y < g.height) :
    g.offset x y + g.depth.bytes ≤ g.size := by
  have hrow := g.row_add_le hy
  have hcolumn := g.column_add_le hx
  simp only [offset]
  omega

/-- The rows of pixels that the text lines take are rows of the screen. -/
theorem rows_mul_le (g : Geometry) : g.rows * glyphHeight ≤ g.height :=
  Nat.div_mul_le_self _ _

/-- Whatever `n` each text line takes, the last line takes its share of what all of them take. -/
theorem rows_mul_eq (g : Geometry) (h : 0 < g.rows) (n : Nat) :
    g.rows * n = (g.rows - 1) * n + n := by
  rw [← Nat.succ_mul, Nat.succ_eq_add_one, Nat.sub_add_cancel h]

/-- The bytes of `n` text lines are those of their rows of pixels, padding included. -/
theorem mul_lineBytes (g : Geometry) (n : Nat) :
    n * g.lineBytes = n * glyphHeight * g.pitch := by
  rw [lineBytes, Nat.mul_comm g.pitch, Nat.mul_assoc]

/-- A row lies `lineBytes` behind the same row of the text line above it. -/
theorem lineBytes_add (g : Geometry) (y : Nat) :
    g.lineBytes + y * g.pitch = (y + glyphHeight) * g.pitch := by
  rw [lineBytes, Nat.add_mul, Nat.mul_comm g.pitch, Nat.add_comm]

/-- The bytes of all text lines lie inside the screen. This is what `Canvas.shiftLines` needs to
move them. -/
theorem lines_le (g : Geometry) : g.rows * g.lineBytes ≤ g.size := by
  have h : g.rows * glyphHeight * g.pitch ≤ g.height * g.pitch :=
    Nat.mul_le_mul_right _ g.rows_mul_le
  calc g.rows * g.lineBytes = g.rows * glyphHeight * g.pitch := g.mul_lineBytes g.rows
    _ ≤ g.height * g.pitch := h
    _ = g.size := Nat.mul_comm _ _

end Geometry

/-- A screen at an address. -/
structure Surface where
  address : UInt64
  geometry : Geometry
  deriving DecidableEq

/-- The surface that a framebuffer describes, if all its bytes can be addressed. -/
def Surface.ofFramebuffer (fb : Framebuffer) : Except ConsoleError Surface :=
  match Geometry.ofFramebuffer fb with
  | .error error => .error error
  | .ok geometry =>
      if fb.address.toNat + geometry.size < addressSpace then
        .ok { address := fb.address, geometry }
      else
        .error (.addressOutOfRange fb.address)

end EarlyBoot.Screen

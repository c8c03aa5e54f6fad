import EarlyBoot.Pixel.Layout

/-!
# `EarlyBoot.Pixel.Mode`: the mode of a screen

A mode says where the pixels of a screen are and how they lie in memory: the
address of the first one, the size of the screen, the distance between rows, and
the depth and layout of a pixel. A mode is plain data; whether it can be drawn on
is decided elsewhere.
-/

set_option autoImplicit false

namespace EarlyBoot

/-- Where the pixels of a screen are and how they lie in memory. -/
structure ScreenMode where
  address : UInt64
  width : UInt32
  height : UInt32
  /-- Bytes from one row to the next. -/
  pitch : UInt32
  /-- Bits of a pixel. -/
  depth : UInt8
  layout : PixelLayout
  deriving DecidableEq, Repr

namespace ScreenMode

/-- Bytes of a pixel, a started byte counting as a whole one. -/
def bytesPerPixel (mode : ScreenMode) : Nat :=
  (mode.depth.toNat + 7) / 8

/-- Bytes of all rows. -/
def sizeBytes (mode : ScreenMode) : Nat :=
  mode.pitch.toNat * mode.height.toNat

end ScreenMode

end EarlyBoot

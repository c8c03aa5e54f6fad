/-!
# `EarlyBoot.Pixel.Layout`: how a colour is packed into a pixel

A pixel is a number of up to 32 bits in which each colour channel takes a run of
bits. An intensity of eight bits is scaled to the width of its channel, upwards
by appending zeros and downwards by dropping low bits. A channel without width,
one wider than 32 bits and one that starts past bit 31 hold nothing.

Main statement:

* `encode_of_not_present` : a channel that is not there adds nothing.
-/

set_option autoImplicit false

namespace EarlyBoot

/-- Place and width of one colour channel in a pixel. -/
structure Channel where
  /-- Place of the lowest bit. -/
  shift : UInt8
  /-- Number of bits. -/
  size : UInt8
  deriving DecidableEq, Repr

namespace Channel

/-- Whether the channel can hold anything. -/
def present (channel : Channel) : Bool :=
  0 < channel.size && channel.size ≤ 32 && channel.shift < 32

/-- The intensity scaled to the width of the channel. -/
def scale (channel : Channel) (intensity : UInt8) : UInt32 :=
  if 8 ≤ channel.size then
    intensity.toUInt32 <<< (channel.size - 8).toUInt32
  else
    intensity.toUInt32 >>> (8 - channel.size).toUInt32

/-- The intensity scaled and moved into place. -/
def encode (channel : Channel) (intensity : UInt8) : UInt32 :=
  if channel.present then channel.scale intensity <<< channel.shift.toUInt32 else 0

/-- Whether bit `i` of a pixel belongs to the channel. -/
def covers (channel : Channel) (i : Nat) : Bool :=
  channel.shift.toNat ≤ i && i < channel.shift.toNat + channel.size.toNat

/-- Whether the channel has bits, all of them inside the pixel. -/
def fits (channel : Channel) : Bool :=
  0 < channel.size && channel.shift.toNat + channel.size.toNat ≤ 32

/-- The bits of the channel in a pixel, as a number. -/
def value (channel : Channel) (pixel : UInt32) : Nat :=
  (pixel.toNat >>> channel.shift.toNat) % (1 <<< channel.size.toNat)

/-- A channel of no bits adds nothing to a pixel: `encode` gives zero for every intensity. -/
theorem encode_of_not_present {channel : Channel} (h : channel.present = false)
    (intensity : UInt8) : channel.encode intensity = 0 := by
  simp [encode, h]

end Channel

/-- The channels of a pixel. -/
structure PixelLayout where
  red : Channel
  green : Channel
  blue : Channel
  reserved : Channel
  deriving DecidableEq, Repr

namespace PixelLayout

/-- Blue, green, red and an unused byte, in memory order. -/
def bgrx : PixelLayout := ⟨⟨16, 8⟩, ⟨8, 8⟩, ⟨0, 8⟩, ⟨24, 8⟩⟩

/-- Red, green, blue and an unused byte, in memory order. -/
def rgbx : PixelLayout := ⟨⟨0, 8⟩, ⟨8, 8⟩, ⟨16, 8⟩, ⟨24, 8⟩⟩

def empty : PixelLayout := ⟨⟨0, 0⟩, ⟨0, 0⟩, ⟨0, 0⟩, ⟨0, 0⟩⟩

/-- The channels in the order in which they are written down. -/
def channels (layout : PixelLayout) : List Channel :=
  [layout.red, layout.green, layout.blue, layout.reserved]

/-- A colour packed into a pixel. -/
def encode (layout : PixelLayout) (r g b : UInt8) : UInt32 :=
  layout.red.encode r ||| layout.green.encode g ||| layout.blue.encode b

end PixelLayout

end EarlyBoot

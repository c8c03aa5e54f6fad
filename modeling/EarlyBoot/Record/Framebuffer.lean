import EarlyBoot.Pixel.Mode
import EarlyBoot.Record.Fields

/-!
# `EarlyBoot.Record.Framebuffer`: where the pixels of the screen are

A framebuffer tag gives the mode of the screen. An accepted one has pixels: its
width, height, depth and address are not zero.
-/

set_option autoImplicit false

namespace EarlyBoot

/-- An accepted framebuffer. -/
structure Framebuffer extends ScreenMode where
  tag : RawTag
  deriving DecidableEq

namespace Framebuffer

def tagSize : Nat := 40

/-- The colour channel at `offset`. -/
def channel (fields : Fields) (offset : Nat) : Except TagRejection Channel := do
  let shift ← fields.uint8 offset
  let size ← fields.uint8 (offset + 1)
  return { shift, size }

def decode (tag : RawTag) : Except TagRejection Framebuffer := do
  let fields ← tag.fields tagSize
  let address ← fields.uint64 8
  let width ← fields.uint32 16
  let height ← fields.uint32 20
  let pitch ← fields.uint32 24
  let depth ← fields.uint8 28
  let red ← channel fields 29
  let green ← channel fields 31
  let blue ← channel fields 33
  let reserved ← channel fields 35
  requireNonzero width .framebufferWidth
  requireNonzero height .framebufferHeight
  requireNonzero depth .framebufferDepth
  requireNonzero address .framebufferAddress
  return { tag, address, width, height, pitch, depth, layout := { red, green, blue, reserved } }

end Framebuffer

end EarlyBoot

/-!
# `EarlyBoot.Screen.Color`: colours

A colour has three intensities of eight bits.
-/

set_option autoImplicit false

namespace EarlyBoot.Screen

/-- A colour. -/
structure Color where
  r : UInt8
  g : UInt8
  b : UInt8
  deriving DecidableEq, Repr

namespace Color

def black : Color := ⟨0x00, 0x00, 0x00⟩
def white : Color := ⟨0xFF, 0xFF, 0xFF⟩
def red : Color := ⟨0xFF, 0x00, 0x00⟩
def green : Color := ⟨0x00, 0xFF, 0x00⟩
def yellow : Color := ⟨0xFF, 0xFF, 0x00⟩
def cyan : Color := ⟨0x00, 0xFF, 0xFF⟩

end Color

end EarlyBoot.Screen

/-!
# `EarlyBoot.Register.Image`: single bits of a register

A register is a row of bits. Writing one bit leaves all others as they are.

Main statement:

* `getLsbD_withBit` : what each bit is after one was written.
-/

set_option autoImplicit false

namespace EarlyBoot.Register

variable {width : Nat}

/-- The register with bit `i` written. -/
def withBit (image : BitVec width) (i : Nat) (on : Bool) : BitVec width :=
  if on then image ||| BitVec.twoPow width i else image &&& ~~~ BitVec.twoPow width i

/-- Take a bit inside the register. Then `withBit` gives bit `i` the new value, and leaves every
other bit as it was. -/
theorem getLsbD_withBit (image : BitVec width) (i : Nat) (on : Bool) (j : Nat) (hj : j < width) :
    (withBit image i on).getLsbD j = if j = i then on else image.getLsbD j := by
  unfold withBit
  by_cases hji : j = i
  · subst hji
    cases on <;> simp [hj]
  · cases on <;> simp [hj, hji]

end EarlyBoot.Register

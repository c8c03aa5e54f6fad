/-!
# `EarlyBoot.Screen.Font`: the shapes of the characters

Each printable ASCII character has a bitmap of eight rows of eight dots, highest
bit leftmost. It is drawn into a cell of 8 by 16 pixels, each row of dots taking
two rows of pixels. Every other character looks like a question mark.

Main statement:

* `isSet_of_outside` : nothing is set outside the cell.
-/

set_option autoImplicit false

namespace EarlyBoot.Screen

/-- Width of a character cell in pixels. -/
def glyphWidth : Nat := 8

/-- Height of a character cell in pixels. -/
def glyphHeight : Nat := 16

namespace Font

/-- Rows of pixels for each row of dots. -/
def rowScale : Nat := glyphHeight / 8

/-- The bitmaps of the characters from space to tilde. -/
def bitmaps : Array (Vector UInt8 8) :=
  #[#v[0x00, 0x00, 0x00, 0x00, 0x00, 0x00, 0x00, 0x00], -- space
    #v[0x18, 0x3C, 0x3C, 0x18, 0x18, 0x00, 0x18, 0x00], -- exclamation mark
    #v[0x66, 0x66, 0x24, 0x00, 0x00, 0x00, 0x00, 0x00], -- quotation mark
    #v[0x6C, 0x6C, 0xFE, 0x6C, 0xFE, 0x6C, 0x6C, 0x00], -- number sign
    #v[0x18, 0x3E, 0x60, 0x3C, 0x06, 0x7C, 0x18, 0x00], -- dollar sign
    #v[0x00, 0xC6, 0xCC, 0x18, 0x30, 0x66, 0xC6, 0x00], -- percent sign
    #v[0x38, 0x6C, 0x38, 0x76, 0xDC, 0xCC, 0x76, 0x00], -- ampersand
    #v[0x18, 0x18, 0x30, 0x00, 0x00, 0x00, 0x00, 0x00], -- apostrophe
    #v[0x0C, 0x18, 0x30, 0x30, 0x30, 0x18, 0x0C, 0x00], -- left parenthesis
    #v[0x30, 0x18, 0x0C, 0x0C, 0x0C, 0x18, 0x30, 0x00], -- right parenthesis
    #v[0x00, 0x66, 0x3C, 0xFF, 0x3C, 0x66, 0x00, 0x00], -- asterisk
    #v[0x00, 0x18, 0x18, 0x7E, 0x18, 0x18, 0x00, 0x00], -- plus sign
    #v[0x00, 0x00, 0x00, 0x00, 0x00, 0x18, 0x18, 0x30], -- comma
    #v[0x00, 0x00, 0x00, 0x7E, 0x00, 0x00, 0x00, 0x00], -- hyphen
    #v[0x00, 0x00, 0x00, 0x00, 0x00, 0x18, 0x18, 0x00], -- full stop
    #v[0x06, 0x0C, 0x18, 0x30, 0x60, 0xC0, 0x80, 0x00], -- slash
    #v[0x3C, 0x66, 0x6E, 0x76, 0x66, 0x66, 0x3C, 0x00], -- 0
    #v[0x18, 0x38, 0x18, 0x18, 0x18, 0x18, 0x7E, 0x00], -- 1
    #v[0x3C, 0x66, 0x06, 0x0C, 0x18, 0x30, 0x7E, 0x00], -- 2
    #v[0x3C, 0x66, 0x06, 0x1C, 0x06, 0x66, 0x3C, 0x00], -- 3
    #v[0x0C, 0x1C, 0x3C, 0x6C, 0x7E, 0x0C, 0x0C, 0x00], -- 4
    #v[0x7E, 0x60, 0x7C, 0x06, 0x06, 0x66, 0x3C, 0x00], -- 5
    #v[0x1C, 0x30, 0x60, 0x7C, 0x66, 0x66, 0x3C, 0x00], -- 6
    #v[0x7E, 0x06, 0x0C, 0x18, 0x30, 0x30, 0x30, 0x00], -- 7
    #v[0x3C, 0x66, 0x66, 0x3C, 0x66, 0x66, 0x3C, 0x00], -- 8
    #v[0x3C, 0x66, 0x66, 0x3E, 0x06, 0x0C, 0x38, 0x00], -- 9
    #v[0x00, 0x18, 0x18, 0x00, 0x18, 0x18, 0x00, 0x00], -- colon
    #v[0x00, 0x18, 0x18, 0x00, 0x18, 0x18, 0x30, 0x00], -- semicolon
    #v[0x0C, 0x18, 0x30, 0x60, 0x30, 0x18, 0x0C, 0x00], -- less than
    #v[0x00, 0x00, 0x7E, 0x00, 0x7E, 0x00, 0x00, 0x00], -- equals
    #v[0x30, 0x18, 0x0C, 0x06, 0x0C, 0x18, 0x30, 0x00], -- greater than
    #v[0x3C, 0x66, 0x06, 0x0C, 0x18, 0x00, 0x18, 0x00], -- question mark
    #v[0x3C, 0x66, 0x6E, 0x6E, 0x60, 0x62, 0x3C, 0x00], -- at sign
    #v[0x3C, 0x66, 0x66, 0x7E, 0x66, 0x66, 0x66, 0x00], -- A
    #v[0x7C, 0x66, 0x66, 0x7C, 0x66, 0x66, 0x7C, 0x00], -- B
    #v[0x3C, 0x66, 0x60, 0x60, 0x60, 0x66, 0x3C, 0x00], -- C
    #v[0x78, 0x6C, 0x66, 0x66, 0x66, 0x6C, 0x78, 0x00], -- D
    #v[0x7E, 0x60, 0x60, 0x7C, 0x60, 0x60, 0x7E, 0x00], -- E
    #v[0x7E, 0x60, 0x60, 0x7C, 0x60, 0x60, 0x60, 0x00], -- F
    #v[0x3C, 0x66, 0x60, 0x6E, 0x66, 0x66, 0x3C, 0x00], -- G
    #v[0x66, 0x66, 0x66, 0x7E, 0x66, 0x66, 0x66, 0x00], -- H
    #v[0x7E, 0x18, 0x18, 0x18, 0x18, 0x18, 0x7E, 0x00], -- I
    #v[0x1E, 0x0C, 0x0C, 0x0C, 0x6C, 0x6C, 0x38, 0x00], -- J
    #v[0x66, 0x6C, 0x78, 0x70, 0x78, 0x6C, 0x66, 0x00], -- K
    #v[0x60, 0x60, 0x60, 0x60, 0x60, 0x60, 0x7E, 0x00], -- L
    #v[0x63, 0x77, 0x7F, 0x6B, 0x63, 0x63, 0x63, 0x00], -- M
    #v[0x66, 0x76, 0x7E, 0x7E, 0x6E, 0x66, 0x66, 0x00], -- N
    #v[0x3C, 0x66, 0x66, 0x66, 0x66, 0x66, 0x3C, 0x00], -- O
    #v[0x7C, 0x66, 0x66, 0x7C, 0x60, 0x60, 0x60, 0x00], -- P
    #v[0x3C, 0x66, 0x66, 0x66, 0x6A, 0x6C, 0x36, 0x00], -- Q
    #v[0x7C, 0x66, 0x66, 0x7C, 0x6C, 0x66, 0x66, 0x00], -- R
    #v[0x3C, 0x66, 0x60, 0x3C, 0x06, 0x66, 0x3C, 0x00], -- S
    #v[0x7E, 0x18, 0x18, 0x18, 0x18, 0x18, 0x18, 0x00], -- T
    #v[0x66, 0x66, 0x66, 0x66, 0x66, 0x66, 0x3C, 0x00], -- U
    #v[0x66, 0x66, 0x66, 0x66, 0x66, 0x3C, 0x18, 0x00], -- V
    #v[0x63, 0x63, 0x63, 0x6B, 0x7F, 0x77, 0x63, 0x00], -- W
    #v[0x66, 0x66, 0x3C, 0x18, 0x3C, 0x66, 0x66, 0x00], -- X
    #v[0x66, 0x66, 0x66, 0x3C, 0x18, 0x18, 0x18, 0x00], -- Y
    #v[0x7E, 0x06, 0x0C, 0x18, 0x30, 0x60, 0x7E, 0x00], -- Z
    #v[0x3C, 0x30, 0x30, 0x30, 0x30, 0x30, 0x3C, 0x00], -- left bracket
    #v[0xC0, 0x60, 0x30, 0x18, 0x0C, 0x06, 0x02, 0x00], -- backslash
    #v[0x3C, 0x0C, 0x0C, 0x0C, 0x0C, 0x0C, 0x3C, 0x00], -- right bracket
    #v[0x18, 0x3C, 0x66, 0x00, 0x00, 0x00, 0x00, 0x00], -- circumflex
    #v[0x00, 0x00, 0x00, 0x00, 0x00, 0x00, 0x00, 0xFF], -- underscore
    #v[0x30, 0x18, 0x0C, 0x00, 0x00, 0x00, 0x00, 0x00], -- grave accent
    #v[0x00, 0x00, 0x3C, 0x06, 0x3E, 0x66, 0x3E, 0x00], -- a
    #v[0x60, 0x60, 0x7C, 0x66, 0x66, 0x66, 0x7C, 0x00], -- b
    #v[0x00, 0x00, 0x3C, 0x66, 0x60, 0x66, 0x3C, 0x00], -- c
    #v[0x06, 0x06, 0x3E, 0x66, 0x66, 0x66, 0x3E, 0x00], -- d
    #v[0x00, 0x00, 0x3C, 0x66, 0x7E, 0x60, 0x3C, 0x00], -- e
    #v[0x1C, 0x30, 0x30, 0x7C, 0x30, 0x30, 0x30, 0x00], -- f
    #v[0x00, 0x00, 0x3E, 0x66, 0x66, 0x3E, 0x06, 0x3C], -- g
    #v[0x60, 0x60, 0x7C, 0x66, 0x66, 0x66, 0x66, 0x00], -- h
    #v[0x18, 0x00, 0x38, 0x18, 0x18, 0x18, 0x3C, 0x00], -- i
    #v[0x06, 0x00, 0x0E, 0x06, 0x06, 0x06, 0x66, 0x3C], -- j
    #v[0x60, 0x60, 0x66, 0x6C, 0x78, 0x6C, 0x66, 0x00], -- k
    #v[0x38, 0x18, 0x18, 0x18, 0x18, 0x18, 0x3C, 0x00], -- l
    #v[0x00, 0x00, 0x76, 0x7F, 0x6B, 0x6B, 0x63, 0x00], -- m
    #v[0x00, 0x00, 0x7C, 0x66, 0x66, 0x66, 0x66, 0x00], -- n
    #v[0x00, 0x00, 0x3C, 0x66, 0x66, 0x66, 0x3C, 0x00], -- o
    #v[0x00, 0x00, 0x7C, 0x66, 0x66, 0x7C, 0x60, 0x60], -- p
    #v[0x00, 0x00, 0x3E, 0x66, 0x66, 0x3E, 0x06, 0x06], -- q
    #v[0x00, 0x00, 0x6E, 0x70, 0x60, 0x60, 0x60, 0x00], -- r
    #v[0x00, 0x00, 0x3E, 0x60, 0x3C, 0x06, 0x7C, 0x00], -- s
    #v[0x30, 0x30, 0x7C, 0x30, 0x30, 0x30, 0x1C, 0x00], -- t
    #v[0x00, 0x00, 0x66, 0x66, 0x66, 0x66, 0x3E, 0x00], -- u
    #v[0x00, 0x00, 0x66, 0x66, 0x66, 0x3C, 0x18, 0x00], -- v
    #v[0x00, 0x00, 0x63, 0x6B, 0x6B, 0x7F, 0x36, 0x00], -- w
    #v[0x00, 0x00, 0x66, 0x3C, 0x18, 0x3C, 0x66, 0x00], -- x
    #v[0x00, 0x00, 0x66, 0x66, 0x66, 0x3E, 0x06, 0x3C], -- y
    #v[0x00, 0x00, 0x7E, 0x0C, 0x18, 0x30, 0x7E, 0x00], -- z
    #v[0x0E, 0x18, 0x18, 0x70, 0x18, 0x18, 0x0E, 0x00], -- left brace
    #v[0x18, 0x18, 0x18, 0x18, 0x18, 0x18, 0x18, 0x00], -- vertical bar
    #v[0x70, 0x18, 0x18, 0x0E, 0x18, 0x18, 0x70, 0x00], -- right brace
    #v[0x76, 0xDC, 0x00, 0x00, 0x00, 0x00, 0x00, 0x00]] -- tilde

/-- The bitmap of the question mark. -/
def replacement : Vector UInt8 8 :=
  bitmaps['?'.toNat - ' '.toNat]

def bitmap (c : Char) : Vector UInt8 8 :=
  if ' '.toNat ≤ c.toNat then bitmaps.getD (c.toNat - ' '.toNat) replacement else replacement

/-- Whether the pixel in column `x` and row `y` of the cell of `c` is set. -/
def isSet (c : Char) (x y : Nat) : Bool :=
  match (bitmap c)[y / rowScale]? with
  | none     => false
  | some row => x < glyphWidth && row.toNat.testBit (glyphWidth - 1 - x)

/-- No point outside the cell of `glyphWidth` by `glyphHeight` is set, whatever the character. -/
theorem isSet_of_outside (c : Char) {x y : Nat} (h : glyphWidth ≤ x ∨ glyphHeight ≤ y) :
    isSet c x y = false := by
  unfold isSet
  split
  · rfl
  · rename_i row hrow
    -- A row of the glyph was found, so it is one of the eight in the table.
    have hy : y / rowScale < 8 := by
      rcases Nat.lt_or_ge (y / rowScale) 8 with hlt | hge
      · exact hlt
      · simp [hge] at hrow
    rcases h with hx | hy'
    · simp [Nat.not_lt.mpr hx]
    · simp only [rowScale, glyphHeight] at hy hy'
      omega

end Font

end EarlyBoot.Screen

import EarlyBoot.Record.Fields
import EarlyBoot.Text.Utf8

/-!
# `EarlyBoot.Record.Text`: command line and name of the bootloader

A text tag holds the bytes of a text and a NUL behind them. What follows the
first NUL is no part of the text, and a text without a NUL inside its tag is
refused.

Main statements:

* `string?_eq_some` : a text is well formed exactly if its bytes encode one;
* `shown_of_string?` : a well-formed text is shown as it is.
-/

set_option autoImplicit false

namespace EarlyBoot

/-- An accepted text. -/
structure BootText where
  tag : RawTag
  /-- The bytes before the first NUL. -/
  bytes : ByteArray
  deriving DecidableEq

namespace BootText

/-- Size of the smallest text tag: its header and the NUL. -/
def minTagSize : Nat := tagHeaderSize + 1

def decode (tag : RawTag) : Except TagRejection BootText := do
  tag.requireSize minTagSize
  match tag.payload.data.findIdx? (· == 0) with
  | some length => return { tag, bytes := tag.payload.extract 0 length }
  | none        => throw .unterminated

/-- The text, if its bytes are well formed. -/
def string? (text : BootText) : Option String :=
  String.fromUTF8? text.bytes

/-- The text as it is shown, malformed bytes replaced. -/
def shown (text : BootText) : String :=
  Text.lossy text.bytes

def isEmpty (text : BootText) : Bool :=
  text.bytes.isEmpty

/-- The reader `string?` succeeds exactly if the bytes are the UTF-8 encoding of some string, and
returns that string. -/
theorem string?_eq_some {text : BootText} {s : String} :
    text.string? = some s ↔ text.bytes = s.toUTF8 := by
  unfold string? String.fromUTF8?
  constructor
  · intro h
    split at h
    · simp only [Option.some.injEq] at h
      subst h
      rfl
    · simp at h
  · intro h
    have hvalid : text.bytes.IsValidUTF8 := h ▸ s.isValidUTF8
    simp only [hvalid, dite_true, Option.some.injEq]
    exact String.toByteArray_inj.mp h

/-- A well-formed text is shown as it is: `shown` and `string?` agree wherever `string?`
succeeds. -/
theorem shown_of_string? {text : BootText} {s : String} (h : text.string? = some s) :
    text.shown = s := by
  rw [shown, string?_eq_some.mp h, Text.lossy_toUTF8]

end BootText

end EarlyBoot

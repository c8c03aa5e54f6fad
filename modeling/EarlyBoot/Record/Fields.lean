import EarlyBoot.Tag.Walk

/-!
# `EarlyBoot.Record.Fields`: the fields of a tag

A record is decoded from a raw tag in two steps: the tag has to be large enough
for its format, and then each field is read at its offset. A field that cannot
be read is refused as if the tag were too small; behind the size check that does
not happen to a field inside the format.

Main statements:

* `fields_of_le`, `fields_of_lt` : the size check;
* `uint8_isOk`, `uint32_isOk`, `uint64_isOk` : a field inside the tag is read.
-/

set_option autoImplicit false

namespace EarlyBoot

/-- A field that must not be zero. -/
inductive RequiredField where
  | rsdpAddress
  | framebufferWidth
  | framebufferHeight
  | framebufferDepth
  | framebufferAddress
  | ramdiskStart
  | ramdiskLength
  | processorCount
  deriving DecidableEq, Repr

def RequiredField.name : RequiredField → String
  | .rsdpAddress        => "RSDP address"
  | .framebufferWidth   => "framebuffer width"
  | .framebufferHeight  => "framebuffer height"
  | .framebufferDepth   => "framebuffer bpp"
  | .framebufferAddress => "framebuffer address"
  | .ramdiskStart       => "initrd start"
  | .ramdiskLength      => "initrd length"
  | .processorCount     => "CPU count"

/-- Why a single tag is passed over. -/
inductive TagRejection where
  | tooSmall (size : UInt32) (min : Nat)
  | entrySizeTooSmall (entrySize : UInt32)
  | entriesOutOfBounds (entrySize count : UInt32)
  | zero (field : RequiredField)
  | unterminated
  deriving DecidableEq, Repr

open Text in
def TagRejection.message : TagRejection → String
  | .tooSmall size min =>
      "tag of " ++ decimal size.toNat ++ " bytes is smaller than the " ++ decimal min ++
        " bytes required"
  | .entrySizeTooSmall entrySize =>
      "memory map entry size " ++ decimal entrySize.toNat ++ " is smaller than an entry"
  | .entriesOutOfBounds entrySize count =>
      decimal count.toNat ++ " memory map entries of " ++ decimal entrySize.toNat ++
        " bytes do not fit the tag"
  | .zero field => field.name ++ " must not be zero"
  | .unterminated => "text is not NUL-terminated within the tag"

/-- The fields of a tag whose format takes at least `min` bytes. -/
structure Fields where
  tag : RawTag
  /-- Least size of its format. -/
  min : Nat

namespace RawTag

/-- Refuses a tag of fewer than `min` bytes. -/
def requireSize (tag : RawTag) (min : Nat) : Except TagRejection Unit :=
  if tag.bytes.size < min then .error (.tooSmall tag.size min) else .ok ()

/-- The fields of a tag that is large enough for its format. -/
def fields (tag : RawTag) (min : Nat) : Except TagRejection Fields := do
  tag.requireSize min
  return { tag, min }

end RawTag

namespace Fields

/-- What was read, or the tag is too small. -/
def orTooSmall {α : Type} (f : Fields) : Option α → Except TagRejection α
  | some value => .ok value
  | none       => .error (.tooSmall f.tag.size f.min)

def uint8 (f : Fields) (offset : Nat) : Except TagRejection UInt8 :=
  f.orTooSmall (Bytes.uint8? f.tag.bytes offset)

def uint32 (f : Fields) (offset : Nat) : Except TagRejection UInt32 :=
  f.orTooSmall (Bytes.uint32? f.tag.bytes offset)

def uint64 (f : Fields) (offset : Nat) : Except TagRejection UInt64 :=
  f.orTooSmall (Bytes.uint64? f.tag.bytes offset)

end Fields

/-- Refuses zero in a required field. -/
def requireNonzero {α : Type} [OfNat α 0] [DecidableEq α] (value : α) (field : RequiredField) :
    Except TagRejection Unit :=
  if value = 0 then .error (.zero field) else .ok ()

/-! ### The size check -/

/-- The check `requireSize` passes exactly if the tag declares at least `min` bytes. -/
theorem RawTag.requireSize_eq_ok {tag : RawTag} {min : Nat} :
    tag.requireSize min = .ok () ↔ min ≤ tag.size.toNat := by
  have hs : tag.bytes.size = tag.size.toNat := tag.size_bytes
  unfold RawTag.requireSize
  split
  · simp only [reduceCtorEq, false_iff]
    omega
  · simp only [true_iff]
    omega

/-- Take a tag that declares at least `min` bytes. Then `fields` gives access to it, with `min` as
the size that a missing field is reported against. -/
theorem RawTag.fields_of_le {tag : RawTag} {min : Nat} (h : min ≤ tag.size.toNat) :
    tag.fields min = .ok { tag, min } := by
  simp [RawTag.fields, RawTag.requireSize_eq_ok.mpr h, bind, Except.bind, pure, Except.pure]

/-- Take a tag that declares fewer than `min` bytes. Then `fields` refuses it as too small, and the
refusal holds both sizes. -/
theorem RawTag.fields_of_lt {tag : RawTag} {min : Nat} (h : tag.size.toNat < min) :
    tag.fields min = .error (.tooSmall tag.size min) := by
  have hs : tag.bytes.size = tag.size.toNat := tag.size_bytes
  have hlt : tag.bytes.size < min := by omega
  simp [RawTag.fields, RawTag.requireSize, hlt, bind, Except.bind]

/-! ### Fields inside the format -/

namespace Fields

/-- Take an offset inside the payload. Then `uint8` succeeds with the byte there. -/
theorem uint8_isOk {f : Fields} {offset : Nat} (h : offset < f.tag.bytes.size) :
    ∃ value, Bytes.uint8? f.tag.bytes offset = some value ∧ f.uint8 offset = .ok value :=
  ⟨f.tag.bytes[offset], by simp [Bytes.uint8?, h], by simp [uint8, Bytes.uint8?, orTooSmall, h]⟩

/-- Take four bytes that lie inside the payload. Then `uint32` succeeds with the number they
hold. -/
theorem uint32_isOk {f : Fields} {offset : Nat} (h : offset + 4 ≤ f.tag.bytes.size) :
    ∃ value, Bytes.uint32? f.tag.bytes offset = some value ∧ f.uint32 offset = .ok value := by
  simp [uint32, Bytes.uint32?, Bytes.field?_of_le h, orTooSmall]

/-- Take eight bytes that lie inside the payload. Then `uint64` succeeds with the number they
hold. -/
theorem uint64_isOk {f : Fields} {offset : Nat} (h : offset + 8 ≤ f.tag.bytes.size) :
    ∃ value, Bytes.uint64? f.tag.bytes offset = some value ∧ f.uint64 offset = .ok value := by
  simp [uint64, Bytes.uint64?, Bytes.field?_of_le h, orTooSmall]

end Fields

end EarlyBoot

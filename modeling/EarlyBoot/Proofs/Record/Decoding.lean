import EarlyBoot.Proofs.Region.Written
import EarlyBoot.Record.Fields

/-!
# `EarlyBoot.Proofs.Record.Decoding`: the steps of a decoder

A decoder checks the size of its tag, reads fields one after the other, and refuses
zero in some of them. Each of these steps is said here as an equation that takes the
step off the front of the decoder.

The bytes of a tag are a header and a payload, and a writer only knows the payload.
`Carries` names the payload of a tag, and the fields behind the header are those of
the payload, eight bytes further in front.

Main statements:

* `requireNonzero_bind` : a check for zero decides how its decoder goes on;
* `Fields.uint32_of_extract`, `Fields.uint64_of_extract` : a field inside the tag is read;
* `Carries.uint8?`, `Carries.uint32?`, `Carries.uint64?` : the fields of a tag are those
  of its payload.
-/

set_option autoImplicit false

namespace EarlyBoot

/-! ### Steps -/

section Steps

variable {α : Type}

/-- A step that succeeds hands its value to the rest of the decoder. -/
theorem ok_bind {β : Type} (a : β) (f : β → Except TagRejection α) :
    ((Except.ok a : Except TagRejection β) >>= f) = f a := rfl

/-- A decoder of two steps accepts exactly if the first step succeeds and the second accepts its
value. Peeling a decoder apart with this leaves one fact per step. -/
theorem bind_eq_ok {β : Type} {x : Except TagRejection β} {f : β → Except TagRejection α}
    {a : α} :
    (x >>= f) = .ok a ↔ ∃ b, x = .ok b ∧ f b = .ok a := by
  cases x with
  | error reason => simp [bind, Except.bind]
  | ok b => simp [bind, Except.bind]

/-- What is done to the result of a decoder can be done at its last step. -/
theorem map_bind {β γ : Type} (x : Except TagRejection β) (f : β → Except TagRejection α)
    (g : α → γ) : (x >>= f).map g = x >>= fun b => (f b).map g := by
  cases x <;> rfl

/-- What is done to the result of a step can be left to the next step. -/
theorem bind_map {β γ : Type} (x : Except TagRejection β) (g : β → γ)
    (f : γ → Except TagRejection α) : x.map g >>= f = x >>= fun b => f (g b) := by
  cases x <;> rfl

/-- A check for zero decides how its decoder goes on: a zero ends it with the name of the field. -/
theorem requireNonzero_bind {β : Type} [OfNat β 0] [DecidableEq β] (value : β)
    (field : RequiredField) (f : Unit → Except TagRejection α) :
    (requireNonzero value field >>= f) = if value = 0 then .error (.zero field) else f () := by
  unfold requireNonzero
  by_cases h : value = 0
  · rw [if_pos h, if_pos h]
    rfl
  · rw [if_neg h, if_neg h]
    rfl

end Steps

namespace RawTag

/-- A tag has all the bytes that it declares. -/
theorem le_size_bytes (tag : RawTag) : tag.size.toNat ≤ tag.bytes.size :=
  Nat.le_of_eq tag.size_bytes.symm

/-- What follows a size check only sees fields that passed it. So two continuations that agree there
make the same decoder. -/
theorem fields_bind_congr {α : Type} {tag : RawTag} {least : Nat}
    {next next' : Fields → Except TagRejection α}
    (h : next { tag, min := least } = next' { tag, min := least }) :
    tag.fields least >>= next = tag.fields least >>= next' := by
  rcases Nat.lt_or_ge tag.size.toNat least with hlt | hle
  · rw [fields_of_lt hlt]
    rfl
  · rw [fields_of_le hle, ok_bind, ok_bind, h]

end RawTag

namespace Fields

variable {f : Fields} {offset : Nat}

/-- A byte that is there is read by the fields of its tag. -/
theorem uint8_of_eq_some {value : UInt8} (h : Bytes.uint8? f.tag.bytes offset = some value) :
    f.uint8 offset = .ok value := by
  rw [uint8, h, orTooSmall]

/-- A 32-bit number that is there is read by the fields of its tag. -/
theorem uint32_of_eq_some {value : UInt32} (h : Bytes.uint32? f.tag.bytes offset = some value) :
    f.uint32 offset = .ok value := by
  rw [uint32, h, orTooSmall]

/-- A 64-bit number that is there is read by the fields of its tag. -/
theorem uint64_of_eq_some {value : UInt64} (h : Bytes.uint64? f.tag.bytes offset = some value) :
    f.uint64 offset = .ok value := by
  rw [uint64, h, orTooSmall]

/-- Take eight bytes inside the tag that `le64` writes for a number. Then the fields read that
number. -/
theorem uint64_of_extract {value : UInt64} (h : offset + 8 ≤ f.tag.size.toNat)
    (hbytes : f.tag.bytes.extract offset (offset + 8) = Bytes.le64 value) :
    f.uint64 offset = .ok value :=
  uint64_of_eq_some (Bytes.uint64?_eq_some.mpr ⟨Nat.le_trans h f.tag.le_size_bytes, hbytes⟩)

/-- Take four bytes inside the tag that `le32` writes for a number. Then the fields read that
number. -/
theorem uint32_of_extract {value : UInt32} (h : offset + 4 ≤ f.tag.size.toNat)
    (hbytes : f.tag.bytes.extract offset (offset + 4) = Bytes.le32 value) :
    f.uint32 offset = .ok value :=
  uint32_of_eq_some (Bytes.uint32?_eq_some.mpr ⟨Nat.le_trans h f.tag.le_size_bytes, hbytes⟩)

end Fields

/-! ### The payload of a tag -/

namespace RawTag

/-- The bytes of the tag are a header and `payload`. -/
def Carries (tag : RawTag) (payload : ByteArray) : Prop :=
  ∃ head : ByteArray, head.size = tagHeaderSize ∧ tag.bytes = head ++ payload

section Carries

variable {tag : RawTag} {payload : ByteArray}

/-- The bytes of a tag that carries a payload are its header and the payload. -/
theorem Carries.size_bytes (h : tag.Carries payload) :
    tag.bytes.size = tagHeaderSize + payload.size := by
  obtain ⟨head, hhead, hbytes⟩ := h
  rw [hbytes, ByteArray.size_append, hhead]

/-- A payload that a tag carries is shorter than any number that 32 bits can say. -/
theorem Carries.size_lt (h : tag.Carries payload) : payload.size < UInt32.size := by
  have hlt := tag.position.size.toNat_lt_size
  rw [← tag.size_bytes, h.size_bytes] at hlt
  omega

/-- A tag that says a source carries the payload of that source. -/
theorem Says.carries {s : TagSource} (h : tag.Says s) : tag.Carries s.payload :=
  ⟨s.header.encode, s.size_encode_header, h.bytes_eq⟩

/-- The payload that a tag carries is the one that is read from it. -/
theorem Carries.payload_eq (h : tag.Carries payload) : tag.payload = payload := by
  have hsize := h.size_bytes
  obtain ⟨head, hhead, hbytes⟩ := h
  rw [RawTag.payload, hsize, hbytes]
  exact ByteArray.extract_append_eq_right hhead.symm (by rw [hhead])

/-- The size that a tag declares is that of its header and the payload it carries. -/
theorem Carries.toNat_size (h : tag.Carries payload) :
    tag.size.toNat = tagHeaderSize + payload.size :=
  tag.size_bytes.symm.trans h.size_bytes

/-- A byte of the tag behind its header is a byte of the payload it carries. -/
theorem Carries.uint8? (h : tag.Carries payload) {offset : Nat} (hoffset : tagHeaderSize ≤ offset) :
    Bytes.uint8? tag.bytes offset = Bytes.uint8? payload (offset - tagHeaderSize) := by
  obtain ⟨head, hhead, hbytes⟩ := h
  rw [hbytes, Bytes.uint8?_append_right (by rwa [hhead]), hhead]

/-- A 32-bit number of the tag behind its header is one of the payload it carries. -/
theorem Carries.uint32? (h : tag.Carries payload) {offset : Nat}
    (hoffset : tagHeaderSize ≤ offset) :
    Bytes.uint32? tag.bytes offset = Bytes.uint32? payload (offset - tagHeaderSize) := by
  obtain ⟨head, hhead, hbytes⟩ := h
  rw [hbytes, Bytes.uint32?_append_right (by rwa [hhead]), hhead]

/-- A 64-bit number of the tag behind its header is one of the payload it carries. -/
theorem Carries.uint64? (h : tag.Carries payload) {offset : Nat}
    (hoffset : tagHeaderSize ≤ offset) :
    Bytes.uint64? tag.bytes offset = Bytes.uint64? payload (offset - tagHeaderSize) := by
  obtain ⟨head, hhead, hbytes⟩ := h
  rw [hbytes, Bytes.uint64?_append_right (by rwa [hhead]), hhead]

end Carries

end RawTag

end EarlyBoot

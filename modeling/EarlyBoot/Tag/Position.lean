import EarlyBoot.Bytes.Alignment
import EarlyBoot.Region
import EarlyBoot.Tag.Kind

/-!
# `EarlyBoot.Tag.Position`: the cursor over the tags of a region

A tag starts with its kind, its flags and its size, header included. The next
tag follows at the size rounded up to eight bytes. `nextTag` is the one place
where positions are computed: it looks only at the region and at the position
that it is given, which may even come from another region.

Main statements:

* `nextTag_eq_some` : when a position is handed out, and what it then is;
* `nextTag_offset_lt`, `nextTag_finish_le` : the cursor moves on and stays inside.
-/

set_option autoImplicit false

namespace EarlyBoot

/-- The header of a tag. -/
structure TagHeader where
  /-- What the tag says it is. -/
  kind : TagKind
  /-- Flags, which nothing here looks at. -/
  flags : UInt16
  /-- Size of the tag in bytes, header included. -/
  size : UInt32
  deriving DecidableEq, Repr

/-- Where a tag starts in its region, and its header. -/
structure TagPosition where
  /-- Offset of the tag from the start of the region. -/
  offset : Nat
  header : TagHeader
  deriving DecidableEq, Repr

namespace TagHeader

/-- The tag header at `offset`, if the bytes hold it. -/
def read? (bytes : ByteArray) (offset : Nat) : Option TagHeader := do
  let code ← Bytes.uint16? bytes offset
  let flags ← Bytes.uint16? bytes (offset + 2)
  let size ← Bytes.uint32? bytes (offset + 4)
  return { kind := .ofCode code, flags, size }

end TagHeader

namespace TagPosition

def kind (p : TagPosition) : TagKind := p.header.kind

def size (p : TagPosition) : UInt32 := p.header.size

/-- Offset just behind the last declared byte of the tag. -/
def finish (p : TagPosition) : Nat := p.offset + p.header.size.toNat

/-- Offset at which a tag behind `p` has to start: none behind a closing tag, behind
one that is smaller than its own header, or where rounding the size up overflows. -/
def following? (p : TagPosition) : Option Nat :=
  if p.kind = .closing ∨ p.size.toNat < tagHeaderSize then
    none
  else
    (Bytes.aligned32? p.size).map (p.offset + ·)

end TagPosition

namespace Region

/-- The position at `offset`, if a tag header fits there and the tag ends inside the region. -/
def positionAt? (region : Region) (offset : Nat) : Option TagPosition :=
  match TagHeader.read? region.bytes offset with
  | none        => none
  | some header =>
      let position : TagPosition := { offset, header }
      if position.finish ≤ region.bytes.size then some position else none

/-- The position behind `current`, or the first one. -/
def nextTag (region : Region) (current : Option TagPosition) : Option TagPosition :=
  match current with
  | none   => region.positionAt? headerSize
  | some p => p.following?.bind region.positionAt?

/-- What can be handed to the cursors of regions: nothing, or a position that one of
them has handed out, whichever region it came from. -/
inductive Handed (regions : List Region) : Option TagPosition → Prop where
  | start : Handed regions none
  | next {region : Region} {current : Option TagPosition} {p : TagPosition} :
      region ∈ regions → Handed regions current → region.nextTag current = some p →
      Handed regions (some p)

end Region

/-! ### Where the cursor goes -/

namespace TagHeader

/-- A tag header is read exactly where `tagHeaderSize` bytes are left; no value in them is
refused. -/
theorem read?_isSome (bytes : ByteArray) (offset : Nat) :
    (read? bytes offset).isSome = decide (offset + tagHeaderSize ≤ bytes.size) := by
  have h2 : offset + 2 + 2 = offset + 4 := rfl
  have h4 : offset + 4 + 4 = offset + 8 := rfl
  by_cases h : offset + 8 ≤ bytes.size
  · simp [read?, Bytes.uint16?, Bytes.uint32?, Bytes.field?, tagHeaderSize, h2, h4, h,
      show offset + 2 ≤ bytes.size by omega, show offset + 4 ≤ bytes.size by omega]
  · have last : Bytes.uint32? bytes (offset + 4) = none := by
      simp [Bytes.uint32?, Bytes.field?_of_lt (show bytes.size < offset + 4 + 4 by omega)]
    simp [read?, last, tagHeaderSize, h]

end TagHeader

namespace TagPosition

/-- There is a tag behind `p` if `p` is not a closing tag, declares at least its own header and
rounds up in 32 bits. Then its offset is the end of `p`, rounded up with `aligned`. -/
theorem following?_eq_some {p : TagPosition} {offset : Nat} :
    p.following? = some offset ↔
      p.kind ≠ .closing ∧ tagHeaderSize ≤ p.size.toNat ∧ p.size.toNat + 7 < UInt32.size ∧
        offset = p.offset + Bytes.aligned p.size.toNat := by
  unfold following?
  split <;> rename_i h
  · simp only [reduceCtorEq, false_iff]
    rintro ⟨hk, hs, -, -⟩
    exact h.elim hk (Nat.not_lt.mpr hs)
  · simp only [Option.map_eq_some_iff, Bytes.aligned32?_eq_some]
    constructor
    · rintro ⟨m, ⟨hfit, rfl⟩, rfl⟩
      exact ⟨fun hk => h (.inl hk), by omega, hfit, rfl⟩
    · rintro ⟨-, -, hfit, rfl⟩
      exact ⟨_, ⟨hfit, rfl⟩, rfl⟩

/-- A tag behind `p` starts past the offset of `p`, so `following?` always makes progress. -/
theorem offset_lt_of_following? {p : TagPosition} {offset : Nat}
    (h : p.following? = some offset) : p.offset < offset := by
  obtain ⟨-, hsize, -, rfl⟩ := following?_eq_some.mp h
  have := Bytes.le_aligned p.size.toNat
  simp only [tagHeaderSize] at hsize
  omega

end TagPosition

namespace Region

/-- There is a position at `offset` if a tag header can be read there and the size it declares ends
inside the region. The position then holds that header and that offset. -/
theorem positionAt?_eq_some {region : Region} {offset : Nat} {p : TagPosition} :
    region.positionAt? offset = some p ↔
      p.offset = offset ∧ TagHeader.read? region.bytes offset = some p.header ∧
        p.finish ≤ region.bytes.size := by
  unfold positionAt?
  cases hr : TagHeader.read? region.bytes offset with
  | none => simp
  | some header =>
      simp only [Option.some.injEq]
      constructor
      · intro h
        split at h
        · rename_i hle
          simp only [Option.some.injEq] at h
          subst h
          exact ⟨rfl, rfl, hle⟩
        · simp at h
      · rintro ⟨rfl, rfl, hle⟩
        have : (⟨p.offset, p.header⟩ : TagPosition) = p := rfl
        simp only [this, hle, if_true]

/-- A position that `positionAt?` returns ends inside its region. -/
theorem finish_le_of_positionAt? {region : Region} {offset : Nat} {p : TagPosition}
    (h : region.positionAt? offset = some p) : p.finish ≤ region.bytes.size :=
  (positionAt?_eq_some.mp h).2.2

/-- The header of a position that `positionAt?` returns lies inside its region as well, even if the
declared size is smaller than a header. -/
theorem header_le_of_positionAt? {region : Region} {offset : Nat} {p : TagPosition}
    (h : region.positionAt? offset = some p) : offset + tagHeaderSize ≤ region.bytes.size := by
  have := TagHeader.read?_isSome region.bytes offset
  rw [(positionAt?_eq_some.mp h).2.1] at this
  simpa using this.symm

/-- The cursor hands out `p` in two cases: `p` is at `headerSize` and nothing was handed out before,
or `following?` leads from the current position to `p`. In both `positionAt?` has to find `p`. -/
theorem nextTag_eq_some {region : Region} {current : Option TagPosition} {p : TagPosition} :
    region.nextTag current = some p ↔
      (match current with
        | none   => p.offset = headerSize
        | some c => c.following? = some p.offset) ∧
        region.positionAt? p.offset = some p := by
  unfold nextTag
  cases current with
  | none =>
      constructor
      · intro h
        have := (positionAt?_eq_some.mp h).1
        exact ⟨this, this ▸ h⟩
      · rintro ⟨ho, h⟩
        exact ho ▸ h
  | some c =>
      simp only [Option.bind_eq_some_iff]
      constructor
      · rintro ⟨offset, hf, h⟩
        have := (positionAt?_eq_some.mp h).1
        subst this
        exact ⟨hf, h⟩
      · rintro ⟨hf, h⟩
        exact ⟨_, hf, h⟩

/-- Every call of `nextTag` moves on: the next position starts past the current one. -/
theorem nextTag_offset_lt {region : Region} {c p : TagPosition}
    (h : region.nextTag (some c) = some p) : c.offset < p.offset :=
  TagPosition.offset_lt_of_following? (nextTag_eq_some.mp h).1

/-- Whatever position the cursor stands at, `nextTag` hands out only positions whose header and
whose declared bytes lie inside the region. -/
theorem nextTag_finish_le {region : Region} {current : Option TagPosition} {p : TagPosition}
    (h : region.nextTag current = some p) :
    p.offset + tagHeaderSize ≤ region.bytes.size ∧ p.finish ≤ region.bytes.size :=
  have hp := (nextTag_eq_some.mp h).2
  ⟨header_le_of_positionAt? hp, finish_le_of_positionAt? hp⟩

end Region

end EarlyBoot

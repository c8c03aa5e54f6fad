import EarlyBoot.Iteration
import EarlyBoot.Tag.Position

/-!
# `EarlyBoot.Tag.Walk`: the tags of a region, one after the other

A raw tag is a position together with the bytes that it declares. A walk hands
out the raw tags of a region in order; once it has handed out nothing it never
hands out anything again. `positions` lists the same positions by iterating the
bare cursor.

Main statements:

* `tag?_of_nextTag` : the bytes of every position of a region are there;
* `TagWalk.done_of_next_eq_none`, `TagWalk.next_of_done` : a walk that hands out nothing is
  finished, and stays so.
-/

set_option autoImplicit false

namespace EarlyBoot

/-- A tag together with the bytes that it declares. -/
structure RawTag where
  position : TagPosition
  /-- The declared bytes, header included. -/
  bytes : ByteArray
  /-- The bytes are as many as the tag declares. -/
  size_bytes : bytes.size = position.size.toNat
  deriving DecidableEq

namespace RawTag

def kind (tag : RawTag) : TagKind := tag.position.kind

def flags (tag : RawTag) : UInt16 := tag.position.header.flags

def size (tag : RawTag) : UInt32 := tag.position.size

/-- The bytes behind the tag header; none in a tag that is smaller than its header. -/
def payload (tag : RawTag) : ByteArray :=
  tag.bytes.extract tagHeaderSize tag.bytes.size

end RawTag

namespace Region

/-- The tag at `position`, if the region holds all its bytes. -/
def tag? (region : Region) (position : TagPosition) : Option RawTag :=
  if h : position.finish ≤ region.bytes.size then
    some {
      position
      bytes := region.bytes.extract position.offset position.finish
      size_bytes := by
        simp only [ByteArray.size_extract, TagPosition.finish, TagPosition.size] at *
        omega
    }
  else
    none

end Region

/-- A walk over the tags of a region. -/
structure TagWalk where
  region : Region
  /-- Position of the last tag handed out. -/
  current : Option TagPosition := none
  done : Bool := false

/-- Hands out the next tag; the walk is done when there is none. -/
def TagWalk.next (walk : TagWalk) : Option RawTag × TagWalk :=
  if walk.done then
    (none, walk)
  else
    match walk.region.nextTag walk.current with
    | none          => (none, { walk with done := true })
    | some position =>
        match walk.region.tag? position with
        | none     => (none, { walk with current := some position, done := true })
        | some tag => (some tag, { walk with current := some position })

namespace Region

/-- A walk that has not started. -/
def walk (region : Region) : TagWalk := { region }

/-- How many tag headers a region has room for. -/
def tagRoom (region : Region) : Nat :=
  (region.bytes.size - headerSize) / tagHeaderSize

/-- The first `n` tags of a region. -/
def firstTags (region : Region) (n : Nat) : List RawTag :=
  Iteration.collect TagWalk.next n region.walk

/-- All tags of a region, in order. -/
def tags (region : Region) : List RawTag :=
  region.firstTags region.tagRoom

/-- The first `n` positions of a region behind `current`, by the bare cursor. -/
def positionsFrom (region : Region) : (n : Nat) → (current : Option TagPosition) → List TagPosition
  | 0,     _       => []
  | n + 1, current =>
      match region.nextTag current with
      | none   => []
      | some p => p :: region.positionsFrom n (some p)

end Region

/-! ### What a walk hands out -/

/-- Take a position that `nextTag` hands out. Then `tag?` finds its bytes, and the tag remembers the
position. -/
theorem Region.tag?_of_nextTag {region : Region} {current : Option TagPosition} {p : TagPosition}
    (h : region.nextTag current = some p) : ∃ tag, region.tag? p = some tag ∧ tag.position = p := by
  simp [Region.tag?, (nextTag_finish_le h).2]

/-- A finished walk hands out nothing and stays finished. -/
theorem TagWalk.next_of_done {walk : TagWalk} (h : walk.done = true) :
    walk.next = (none, walk) := by
  simp [TagWalk.next, h]

/-- A walk that hands out nothing is finished afterwards, so it never resumes. -/
theorem TagWalk.done_of_next_eq_none {walk walk' : TagWalk} (h : walk.next = (none, walk')) :
    walk'.done = true := by
  unfold TagWalk.next at h
  -- A call yields nothing in three ways: the walk was over, the cursor stops, or the tag is not
  -- there. Each marks it as over.
  split at h
  · rename_i hd
    simp only [Prod.mk.injEq, true_and] at h
    exact h ▸ hd
  · split at h
    · simp only [Prod.mk.injEq, true_and] at h
      exact h ▸ rfl
    · split at h
      · simp only [Prod.mk.injEq, true_and] at h
        exact h ▸ rfl
      · simp at h

end EarlyBoot

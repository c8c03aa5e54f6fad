import EarlyBoot.Proofs.Tag.Cursor
import EarlyBoot.Proofs.Tag.Walk

/-!
# `EarlyBoot.Proofs.Tag.Chain`: the tags that a walk hands out

A walk hands out tags that its region has: their positions are held by the region,
and their bytes are those of the region there (`Has`). A step that hands out a tag
tells all about it at once (`collect_eq_cons`): it is the tag at the next position,
and what comes after it is handed out by a walk that stands at that position. Every
fact about all tags of a region is an induction over that.

Main statements:

* `collect_of_some` : what one step of a walk hands out;
* `collect_eq_cons` : the first tag that is handed out, and the walk behind it;
* `has_of_mem_tags` : a region has all its tags.
-/

set_option autoImplicit false

namespace EarlyBoot

/-- A tag is told by its position and its bytes. -/
theorem RawTag.eq_of_position_of_bytes {tag tag' : RawTag}
    (hposition : tag.position = tag'.position) (hbytes : tag.bytes = tag'.bytes) : tag = tag' := by
  obtain ⟨position, bytes, hsize⟩ := tag
  obtain ⟨position', bytes', hsize'⟩ := tag'
  obtain rfl : position = position' := hposition
  obtain rfl : bytes = bytes' := hbytes
  rfl

/-- The region holds the position of the tag, and the bytes of the tag are its own. -/
structure Region.Has (region : Region) (tag : RawTag) : Prop where
  holds : region.Holds tag.position
  bytes_eq : tag.bytes = region.bytes.extract tag.position.offset tag.position.finish

/-- The position that a cursor stands at, if it has moved at all, is a place for a tag. -/
def StandsPlaced (current : Option TagPosition) : Prop :=
  ∀ q, current = some q → q.Placed

/-- A cursor that has not started stands at a place for a tag. -/
theorem standsPlaced_none : StandsPlaced none := by
  intro q hq
  cases hq

/-- A cursor at a position that is placed like a tag stands at a place for a tag. -/
theorem TagPosition.Placed.standsPlaced {p : TagPosition} (h : p.Placed) :
    StandsPlaced (some p) := by
  intro q hq
  cases hq
  exact h

namespace Region

/-! ### One step -/

/-- The next position starts where `startBehind?` says that the cursor looks for it. -/
theorem offset_of_nextTag {region : Region} {current : Option TagPosition} {p : TagPosition}
    {start : Nat} (hstart : startBehind? current = some start)
    (h : region.nextTag current = some p) : p.offset = start := by
  rw [nextTag_eq_bind, hstart, Option.bind_some] at h
  exact (positionAt?_eq_some.mp h).1

/-- Take a cursor that stands at a place for a tag. Then the region `Holds` the next position: it is
aligned, lies inside the region and has the header that the bytes say. -/
theorem holds_of_nextTag {region : Region} {current : Option TagPosition} {p : TagPosition}
    (hcurrent : StandsPlaced current) (h : region.nextTag current = some p) :
    region.Holds p := by
  obtain ⟨-, hposition⟩ := nextTag_eq_some.mp h
  obtain ⟨-, hread, hfinish⟩ := positionAt?_eq_some.mp hposition
  obtain ⟨hheader, hkind, hbytes⟩ := TagHeader.read?_eq_some.mp hread
  exact ⟨placed_of_nextTag hcurrent h, hheader, hfinish, hkind, hbytes⟩

/-- The tag at a position has the bytes of the region from its offset to its end. -/
theorem tag?_eq_some {region : Region} {p : TagPosition} {tag : RawTag}
    (h : region.tag? p = some tag) :
    tag.position = p ∧ tag.bytes = region.bytes.extract p.offset p.finish := by
  unfold tag? at h
  split at h
  · cases h
    exact ⟨rfl, rfl⟩
  · cases h

/-- Without a next position a walk hands out nothing, however often it is asked. -/
theorem collect_of_none {region : Region} {current : Option TagPosition}
    (h : region.nextTag current = none) (n : Nat) :
    Iteration.collect TagWalk.next n { region, current } = [] := by
  rw [collect_next, positionsFrom_of_none h, List.filterMap_nil]

/-- With a next position a walk hands out the tag there, and then those behind it. -/
theorem collect_of_some {region : Region} {current : Option TagPosition} {p : TagPosition}
    (h : region.nextTag current = some p) (n : Nat) :
    ∃ tag, region.tag? p = some tag ∧
      Iteration.collect TagWalk.next (n + 1) { region, current } =
        tag :: Iteration.collect TagWalk.next n { region, current := some p } := by
  obtain ⟨tag, htag, -⟩ := tag?_of_nextTag h
  refine ⟨tag, htag, ?_⟩
  rw [collect_next, collect_next, positionsFrom_of_some h, List.filterMap_cons_some htag]

/-- Take a walk that hands out a first tag and others. Then the first is at the next position, with
the bytes of the region there, and the others are handed out by a walk that stands at it. -/
theorem collect_eq_cons {region : Region} {current : Option TagPosition} {n : Nat} {tag : RawTag}
    {tags : List RawTag}
    (h : Iteration.collect TagWalk.next n { region, current } = tag :: tags) :
    region.nextTag current = some tag.position ∧
      tag.bytes = region.bytes.extract tag.position.offset tag.position.finish ∧
        ∃ m, Iteration.collect TagWalk.next m { region, current := some tag.position } = tags := by
  cases n with
  | zero => cases h
  | succ n =>
      cases hnext : region.nextTag current with
      | none =>
          rw [collect_of_none hnext] at h
          cases h
      | some p =>
          obtain ⟨found, hfound, hcollect⟩ := collect_of_some hnext n
          rw [hcollect, List.cons.injEq] at h
          obtain ⟨rfl, hrest⟩ := h
          -- The tag that was handed out is the one at the position that the cursor found.
          obtain ⟨rfl, hbytes⟩ := tag?_eq_some hfound
          exact ⟨rfl, hbytes, n, hrest⟩

/-! ### All steps -/

/-- The tags that a walk hands out start where it looks for the first one, or behind. -/
theorem exists_startBehind_le {region : Region} {tags : List RawTag}
    {current : Option TagPosition} {n : Nat}
    (h : Iteration.collect TagWalk.next n { region, current } = tags) :
    ∀ tag ∈ tags, ∃ start, startBehind? current = some start ∧ start ≤ tag.position.offset := by
  induction tags generalizing current n with
  | nil =>
      intro tag hmem
      cases hmem
  | cons first tags ih =>
      obtain ⟨hnext, -, m, hrest⟩ := collect_eq_cons h
      have hstart : startBehind? current = some first.position.offset := by
        rw [nextTag_eq_bind] at hnext
        obtain ⟨start, hstart, hposition⟩ := Option.bind_eq_some_iff.mp hnext
        rw [hstart, (positionAt?_eq_some.mp hposition).1]
      intro tag hmem
      refine ⟨_, hstart, ?_⟩
      rcases List.mem_cons.mp hmem with rfl | hmem
      · exact Nat.le_refl _
      · -- The cursor moves on before it looks for any of the others.
        obtain ⟨start, hbehind, hle⟩ := ih hrest tag hmem
        have hlt := TagPosition.offset_lt_of_following? hbehind
        omega

/-- Take a walk that stands at a place for a tag. Then its region `Has` every tag that it hands
out. -/
theorem has_of_mem_collect {region : Region} {tags : List RawTag} {current : Option TagPosition}
    {n : Nat} (hcurrent : StandsPlaced current)
    (h : Iteration.collect TagWalk.next n { region, current } = tags) :
    ∀ tag ∈ tags, region.Has tag := by
  -- Each tag that is handed out is a place for a tag again, from which the walk goes on.
  induction tags generalizing current n with
  | nil =>
      intro tag hmem
      cases hmem
  | cons first tags ih =>
      obtain ⟨hnext, hbytes, m, hrest⟩ := collect_eq_cons h
      have hfirst : region.Has first := ⟨holds_of_nextTag hcurrent hnext, hbytes⟩
      intro tag hmem
      rcases List.mem_cons.mp hmem with rfl | hmem
      · exact hfirst
      · exact ih hfirst.holds.placed.standsPlaced hrest tag hmem

/-- A region `Has` all of its tags. -/
theorem has_of_mem_tags {region : Region} {tag : RawTag} (h : tag ∈ region.tags) :
    region.Has tag :=
  has_of_mem_collect standsPlaced_none rfl tag h

end Region

end EarlyBoot

import EarlyBoot.Tag.Walk

/-!
# `EarlyBoot.Proofs.Tag.Walk`: how far a walk goes

A walk hands out the tags at the positions of the bare cursor. Each position takes
at least the eight bytes of a tag header from what is left of the region, so the
number of tags is bounded by the room behind the header of the region, and
asking for more tags than that gives no more of them.

Main statements:

* `collect_next` : a walk hands out the tags at the positions of the cursor;
* `length_positionsFrom_le` : there are no more positions than headers fit;
* `firstTags_eq_take` : the first tags of a region are the start of all its tags.
-/

set_option autoImplicit false

namespace EarlyBoot

namespace Region

/-! ### Where the next tag starts -/

/-- Offset at which the tag behind `current` has to start, if there can be one. -/
def startBehind? : Option TagPosition → Option Nat
  | none   => some headerSize
  | some p => p.following?

/-- The cursor looks at one offset only, the one that `startBehind?` names. -/
theorem nextTag_eq_bind (region : Region) (current : Option TagPosition) :
    region.nextTag current = (startBehind? current).bind region.positionAt? := by
  cases current with
  | none => rfl
  | some p => rfl

/-- Without a next position there are no positions. -/
theorem positionsFrom_of_none {region : Region} {current : Option TagPosition}
    (h : region.nextTag current = none) (n : Nat) : region.positionsFrom n current = [] := by
  cases n with
  | zero => rfl
  | succ n => rw [positionsFrom, h]

/-- With a next position the list starts with it, and goes on with those behind it. -/
theorem positionsFrom_of_some {region : Region} {current : Option TagPosition} {p : TagPosition}
    (h : region.nextTag current = some p) (n : Nat) :
    region.positionsFrom (n + 1) current = p :: region.positionsFrom n (some p) := by
  rw [positionsFrom, h]

/-! ### The room of a region -/

/-- There are no more positions than tag headers fit behind the offset of the first. The induction
is on the number of steps, each of which moves on by a header at least. -/
theorem length_positionsFrom_le {region : Region} (n : Nat) {current : Option TagPosition}
    {start : Nat} (hstart : startBehind? current = some start) :
    (region.positionsFrom n current).length ≤ (region.bytes.size - start) / tagHeaderSize := by
  -- Each step moves the start up by a header at least, so the bound shrinks by one.
  induction n generalizing current start with
  | zero => exact Nat.zero_le _
  | succ n ih =>
      cases hnext : region.nextTag current with
      | none =>
          rw [positionsFrom_of_none hnext]
          exact Nat.zero_le _
      | some p =>
          rw [positionsFrom_of_some hnext, List.length_cons]
          have hposition : region.positionAt? start = some p := by
            rwa [nextTag_eq_bind, hstart, Option.bind_some] at hnext
          have hoffset : p.offset = start := (positionAt?_eq_some.mp hposition).1
          have hroom : start + tagHeaderSize ≤ region.bytes.size :=
            header_le_of_positionAt? hposition
          cases hbehind : startBehind? (some p) with
          | none =>
              -- No tag can follow, and there was room for this one.
              have hend : region.nextTag (some p) = none := by
                rw [nextTag_eq_bind, hbehind, Option.bind_none]
              rw [positionsFrom_of_none hend]
              simp only [tagHeaderSize, List.length_nil] at hroom ⊢
              omega
          | some start' =>
              have hrest := ih hbehind
              obtain ⟨-, hsize, -, hstart'⟩ := TagPosition.following?_eq_some.mp hbehind
              have hup := Bytes.le_aligned p.size.toNat
              simp only [tagHeaderSize] at hroom hrest hsize ⊢
              omega

end Region

/-! ### The tags at the positions -/

/-- A step of a walk hands out the tag at the next position of the cursor, and is finished if there
is none. -/
theorem TagWalk.next_eq (region : Region) (current : Option TagPosition) :
    TagWalk.next { region, current } =
      match region.nextTag current with
      | none   => (none, { region, current, done := true })
      | some p => (region.tag? p, { region, current := some p }) := by
  simp only [TagWalk.next, Bool.false_eq_true, if_false]
  cases hnext : region.nextTag current with
  | none => rfl
  | some p =>
      -- A position that is handed out has a tag, so the walk does not end here.
      obtain ⟨tag, htag, -⟩ := Region.tag?_of_nextTag hnext
      simp only [htag]

namespace Region

/-- A walk hands out the tags at the positions of the bare cursor, in order. -/
theorem collect_next (region : Region) (n : Nat) (current : Option TagPosition) :
    Iteration.collect TagWalk.next n { region, current } =
      (region.positionsFrom n current).filterMap region.tag? := by
  induction n generalizing current with
  | zero => rfl
  | succ n ih =>
      rw [Iteration.collect_succ, TagWalk.next_eq]
      cases hnext : region.nextTag current with
      | none =>
          rw [positionsFrom_of_none hnext]
          rfl
      | some p =>
          -- A position that the cursor finds has a tag, so none of them is passed over.
          obtain ⟨tag, htag, -⟩ := tag?_of_nextTag hnext
          rw [positionsFrom_of_some hnext, List.filterMap_cons_some htag]
          simp only [htag, ih]

/-- There is room for all tags that a walk hands out, however many are asked for. -/
theorem length_firstTags_le (region : Region) (n : Nat) :
    (region.firstTags n).length ≤ region.tagRoom := by
  rw [firstTags, walk, collect_next]
  exact Nat.le_trans (List.length_filterMap_le _ _) (length_positionsFrom_le n rfl)

/-- The first tags of a region are the start of all its tags. -/
theorem firstTags_eq_take (region : Region) (n : Nat) :
    region.firstTags n = region.tags.take n := by
  rcases Nat.le_total n region.tagRoom with h | h
  · exact (Iteration.collect_take TagWalk.next n region.tagRoom region.walk h).symm
  · -- More steps than there is room for hand out all tags.
    have hall : region.tags = region.firstTags n := by
      have htake : (region.firstTags n).take region.tagRoom = region.tags :=
        Iteration.collect_take TagWalk.next region.tagRoom n region.walk h
      rw [← htake, List.take_of_length_le (region.length_firstTags_le n)]
    have hlength : region.tags.length ≤ n := Nat.le_trans (region.length_firstTags_le _) h
    rw [List.take_of_length_le hlength, hall]

end Region

end EarlyBoot

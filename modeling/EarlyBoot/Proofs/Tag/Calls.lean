import EarlyBoot.Proofs.BootInfo.Outcome
import EarlyBoot.Proofs.Tag.Chain

/-!
# `EarlyBoot.Proofs.Tag.Calls`: a walk, call by call

A walk is a cursor that remembers where it stands, and whether it is done. Both could
disagree with the bare cursor: the walk asks for the bytes of each position once more,
and keeps a flag of its own. They never do. Call number `n` of a walk hands out the tag
at position number `n` of the bare cursor, and nothing if there is no such position
(`call_eq_bind`), however often it is asked.

The invariant is that a walk that is not done stands where the cursor does, and that one
that is done has no position in front of it (`Faces`).

A survey counts its visits in 32 bits. `Survey.runCounted` is its loop with that counter,
which gives up where the counter would overflow. There are too few tags for that.

Main statements:

* `Faces.next` : what one call hands out, and where the walk stands then;
* `call_eq_bind` : what each call hands out;
* `Survey.runCounted_eq` : a counter that starts low enough does not overflow;
* `walk_eq_cursor` : a walk and the bare cursor agree, and end soon enough.
-/

set_option autoImplicit false

namespace EarlyBoot

namespace TagWalk

/-- The walk after `n` calls. -/
def after (walk : TagWalk) : (n : Nat) → TagWalk
  | 0     => walk
  | n + 1 => (walk.after n).next.2

/-- What call number `n` hands out, the first one being number zero. -/
def call (walk : TagWalk) (n : Nat) : Option RawTag :=
  (walk.after n).next.1

end TagWalk

namespace Region

/-- Position number `n` behind `current`, by the bare cursor. -/
def positionBehind? (region : Region) (current : Option TagPosition) :
    (n : Nat) → Option TagPosition
  | 0     => region.nextTag current
  | n + 1 => (region.positionBehind? current n).bind fun p => region.nextTag (some p)

/-- The positions behind `current` are the next position and those behind it. -/
theorem positionBehind?_succ (region : Region) (current : Option TagPosition) (n : Nat) :
    region.positionBehind? current (n + 1) =
      (region.nextTag current).bind fun p => region.positionBehind? (some p) n := by
  induction n with
  | zero => rfl
  | succ n ih =>
      rw [positionBehind?, ih, Option.bind_assoc]
      rfl

/-- A walk over the region stands in front of the position `next`, or is done and there
is none. -/
inductive Faces (region : Region) : (walk : TagWalk) → (next : Option TagPosition) → Prop where
  | ahead (current : Option TagPosition) : Faces region { region, current } (region.nextTag current)
  | finished {walk : TagWalk} (h : walk.done = true) : Faces region walk none

/-! ### One call -/

/-- One step keeps the walk and the bare cursor together: a call of `next` hands out the tag at the
position that the walk faces, and then the walk faces the next one. -/
theorem Faces.next {region : Region} {walk : TagWalk} {next : Option TagPosition}
    (h : region.Faces walk next) :
    walk.next.1 = next.bind region.tag? ∧
      region.Faces walk.next.2 (next.bind fun p => region.nextTag (some p)) := by
  cases h with
  | finished hdone =>
      rw [TagWalk.next_of_done hdone]
      exact ⟨rfl, .finished hdone⟩
  | ahead current =>
      rw [TagWalk.next_eq]
      cases region.nextTag current with
      | none => exact ⟨rfl, .finished rfl⟩
      | some p => exact ⟨rfl, .ahead (some p)⟩

/-! ### All calls -/

/-- After `n` calls a walk faces position number `n` of the bare cursor. The induction is on `n`,
with `Faces.next` at each call. -/
theorem faces_after (region : Region) (n : Nat) :
    region.Faces (region.walk.after n) (region.positionBehind? none n) := by
  induction n with
  | zero => exact .ahead none
  | succ n ih => exact ih.next.2

/-- Call number `n` hands out the tag at position number `n`, if there is one. -/
theorem call_eq_bind (region : Region) (n : Nat) :
    region.walk.call n = (region.positionBehind? none n).bind region.tag? :=
  (region.faces_after n).next.1

/-- Every position of the bare cursor was reached by a step of `nextTag`. -/
theorem exists_nextTag_of_positionBehind? {region : Region} {current : Option TagPosition}
    {n : Nat} {p : TagPosition} (h : region.positionBehind? current n = some p) :
    ∃ before, region.nextTag before = some p := by
  cases n with
  | zero => exact ⟨current, h⟩
  | succ n =>
      obtain ⟨q, -, hnext⟩ := Option.bind_eq_some_iff.mp h
      exact ⟨some q, hnext⟩

/-- At each position of the bare cursor there is a tag, and the walk hands it out at that call. -/
theorem call_of_position {region : Region} {n : Nat} {p : TagPosition}
    (h : region.positionBehind? none n = some p) :
    ∃ tag, region.tag? p = some tag ∧ tag.position = p ∧ region.walk.call n = some tag := by
  obtain ⟨before, hnext⟩ := exists_nextTag_of_positionBehind? h
  obtain ⟨tag, htag, hposition⟩ := tag?_of_nextTag hnext
  refine ⟨tag, htag, hposition, ?_⟩
  rw [call_eq_bind, h, Option.bind_some, htag]

/-- Call by call a walk hands out the positions of the bare cursor, and no others. -/
theorem map_position_call (region : Region) (n : Nat) :
    (region.walk.call n).map RawTag.position = region.positionBehind? none n := by
  cases h : region.positionBehind? none n with
  | none => rw [call_eq_bind, h, Option.bind_none, Option.map_none]
  | some p =>
      obtain ⟨tag, -, hposition, hcall⟩ := call_of_position h
      rw [hcall, Option.map_some, hposition]

/-- Behind the last position there is none, however far the count goes on. -/
theorem positionBehind?_of_none {region : Region} {current : Option TagPosition} {m n : Nat}
    (h : region.positionBehind? current m = none) (hle : m ≤ n) :
    region.positionBehind? current n = none := by
  induction hle with
  | refl => exact h
  | step _ ih => rw [positionBehind?, ih, Option.bind_none]

/-! ### The list of all tags -/

/-- The tags that a walk collects are those at the positions of the bare cursor, in their order. -/
theorem getElem?_collect (region : Region) (current : Option TagPosition) (m n : Nat) :
    (Iteration.collect TagWalk.next m { region, current })[n]? =
      if n < m then (region.positionBehind? current n).bind region.tag? else none := by
  -- The first call takes one off both numbers, unless nothing comes.
  induction m generalizing current n with
  | zero => rfl
  | succ m ih =>
      cases hnext : region.nextTag current with
      | none =>
          have hnone : region.positionBehind? current n = none :=
            positionBehind?_of_none (m := 0) hnext (Nat.zero_le n)
          rw [collect_of_none hnext, hnone, Option.bind_none, ite_self]
          rfl
      | some p =>
          obtain ⟨tag, htag, hcollect⟩ := collect_of_some hnext m
          rw [hcollect]
          cases n with
          | zero =>
              rw [List.getElem?_cons_zero, if_pos (Nat.zero_lt_succ m), positionBehind?, hnext,
                Option.bind_some, htag]
          | succ n =>
              rw [List.getElem?_cons_succ, ih, positionBehind?_succ, hnext, Option.bind_some]
              simp only [Nat.add_lt_add_iff_right]

/-- Call number `tagRoom` and all later ones hand out nothing. -/
theorem call_of_tagRoom_le {region : Region} {n : Nat} (h : region.tagRoom ≤ n) :
    region.walk.call n = none := by
  -- One call more than `n` collects no more tags than there is room for.
  have hlength : (region.firstTags (n + 1)).length ≤ n :=
    Nat.le_trans (region.length_firstTags_le (n + 1)) h
  have hbehind : (region.firstTags (n + 1))[n]? = none := List.getElem?_eq_none hlength
  rwa [firstTags, walk, getElem?_collect, if_pos (Nat.lt_succ_self n), ← call_eq_bind] at hbehind

/-- The list of all tags is what a walk hands out, call by call. -/
theorem getElem?_tags (region : Region) (n : Nat) : region.tags[n]? = region.walk.call n := by
  rw [tags, firstTags, walk, getElem?_collect]
  split
  · exact (region.call_eq_bind n).symm
  · rename_i hroom
    exact (call_of_tagRoom_le (Nat.le_of_not_lt hroom)).symm

/-- The room for tags is what the declared size of the region leaves behind its header, in
eights. -/
theorem tagRoom_eq (region : Region) :
    region.tagRoom = (region.header.totalSize.toNat - 16) / 8 := by
  rw [tagRoom, region.size_bytes]
  rfl

end Region

/-! ### The counter of a survey -/

namespace BootInfo.Survey

/-- The loop of a survey that has visited `visited` tags, with that number in 32 bits.
Nothing comes out if the number overflows. -/
def runCounted (limits : Limits) (survey : Survey) (visited : UInt32) :
    (tags : List RawTag) → Option (Ending × Survey)
  | []          => some (.unterminated, survey)
  | tag :: tags =>
      if visited.toNat + 1 < UInt32.size then
        if limits.maxTags < visited + 1 then some (.capped, survey)
        else if tag.kind = .closing then some (.closed, survey)
        else (survey.visit tag).runCounted limits (visited + 1) tags
      else
        none

/-- Take a counter that is within the limit and low enough for all tags. Then `runCounted`, which
fails if the counter overflows, is `run` with the room that the counter leaves. -/
theorem runCounted_eq {limits : Limits} {visited : UInt32} (survey : Survey) {tags : List RawTag}
    (hlimit : visited ≤ limits.maxTags) (hfit : visited.toNat + tags.length < UInt32.size) :
    survey.runCounted limits visited tags =
      some (survey.run (limits.maxTags.toNat - visited.toNat) tags) := by
  -- Each visit moves one tag from the list into the counter, which keeps their sum.
  induction tags generalizing survey visited with
  | nil => rw [runCounted, run_nil]
  | cons tag tags ih =>
      rw [List.length_cons] at hfit
      have hnext : (visited + 1).toNat = visited.toNat + 1 := by
        rw [UInt32.toNat_add]
        exact Nat.mod_eq_of_lt (show visited.toNat + 1 < UInt32.size by omega)
      have hcapped : limits.maxTags < visited + 1 ↔ limits.maxTags.toNat < visited.toNat + 1 := by
        rw [UInt32.lt_iff_toNat_lt, hnext]
      rw [UInt32.le_iff_toNat_le] at hlimit
      rw [runCounted, if_pos (by omega)]
      rcases Nat.lt_or_eq_of_le hlimit with hroom | hfull
      · -- There is room for this tag.
        have hsplit : limits.maxTags.toNat - visited.toNat =
            limits.maxTags.toNat - (visited + 1).toNat + 1 := by omega
        rw [if_neg (mt hcapped.mp (by omega)), hsplit]
        by_cases hk : tag.kind = .closing
        · rw [if_pos hk, run_closing survey _ tags hk]
        · have hlimit' : visited + 1 ≤ limits.maxTags := UInt32.le_iff_toNat_le.mpr (by omega)
          rw [if_neg hk, run_visit survey _ tags hk, ih (survey.visit tag) hlimit' (by omega)]
      · rw [if_pos (hcapped.mpr (by omega)), hfull, Nat.sub_self]
        rfl

end BootInfo.Survey

namespace Region

/-- A walk agrees with the bare cursor, call by call: it hands out the same positions, each with all
the bytes that the tag declares, and once there is none it stays finished. Only the last tag can be
a closing one or smaller than its header. There are no more tags than headers fit behind that of the
region, so a walk ends without a cap, and a survey can count its visits in 32 bits under any cap. -/
theorem walk_eq_cursor (region : Region) :
    (∀ n, (region.walk.call n).map RawTag.position = region.positionBehind? none n) ∧
    (∀ n p, region.positionBehind? none n = some p →
      ∃ tag, region.tag? p = some tag ∧ region.walk.call n = some tag ∧
        tag.bytes = region.bytes.extract p.offset (p.offset + p.size.toNat) ∧
        tag.bytes.size = p.size.toNat) ∧
    (∀ m n, m ≤ n → region.walk.call m = none → region.walk.call n = none) ∧
    (∀ n p, region.positionBehind? none n = some p →
      region.positionBehind? none (n + 1) ≠ none → p.kind ≠ .closing ∧ 8 ≤ p.size.toNat) ∧
    (∀ n, region.tags[n]? = region.walk.call n) ∧
    region.tags.length ≤ (region.header.totalSize.toNat - 16) / 8 ∧
    ∀ limits, BootInfo.Survey.runCounted limits { info := .unknown } 0 region.tags =
      some (BootInfo.survey region limits) := by
  have hlength : region.tags.length ≤ (region.header.totalSize.toNat - 16) / 8 := by
    rw [← region.tagRoom_eq]
    exact region.length_firstTags_le region.tagRoom
  refine ⟨region.map_position_call, ?_, ?_, ?_, region.getElem?_tags, hlength, ?_⟩
  · intro n p hp
    obtain ⟨tag, htag, -, hcall⟩ := call_of_position hp
    obtain ⟨rfl, hbytes⟩ := tag?_eq_some htag
    exact ⟨tag, htag, hcall, hbytes, tag.size_bytes⟩
  · intro m n hle hnone
    have hposition : region.positionBehind? none m = none := by
      rw [← map_position_call, hnone, Option.map_none]
    rw [call_eq_bind, positionBehind?_of_none hposition hle, Option.bind_none]
  · -- A position with another one behind it was followed, which rules the last tag out.
    intro n p hp hsome
    obtain ⟨next, hnext⟩ := Option.ne_none_iff_exists'.mp hsome
    rw [positionBehind?, hp, Option.bind_some] at hnext
    have hfollows := follows_of_nextTag hnext
    exact ⟨hfollows.kind_ne, hfollows.size_le⟩
  · intro limits
    -- There are fewer tags than bytes, and these are counted in 32 bits.
    have htotal := region.header.totalSize.toNat_lt_size
    have hzero : (0 : UInt32).toNat = 0 := rfl
    rw [BootInfo.survey_eq_run, BootInfo.Survey.runCounted_eq _ (UInt32.zero_le) (by omega), hzero,
      Nat.sub_zero]

end Region

end EarlyBoot

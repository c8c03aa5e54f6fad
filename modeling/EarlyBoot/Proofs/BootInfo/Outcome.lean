import EarlyBoot.BootInfo.Parse
import EarlyBoot.BootInfo.Slots
import EarlyBoot.Proofs.Tag.Walk
import Mathlib.Data.List.Forall2

/-!
# `EarlyBoot.Proofs.BootInfo.Outcome`: how the parsing of a region comes out

A survey goes through the tags one by one, under a cap on their number, and stops
at the first closing tag. Here its outcome is said of the list of all tags of the
region, without going through it: how the survey ends is a matter of the place of
the first closing tag, and what it has found is what the tags in front of that
place say, slot by slot.

The invariant of the loop is that what is known is `ofTags` of the tags visited so
far. A refused tag keeps it because it adds nothing to any slot, an accepted one
because it comes last in its own.

Main statements:

* `Survey.run_fst` : how a survey ends;
* `Survey.run_info` : what a survey has found;
* `Survey.run_congr` : what a survey sees of its tags;
* `parseRegion_value` : the outcome of parsing a region, for all regions and limits.
-/

set_option autoImplicit false

namespace EarlyBoot

/-! ### The first closing tag -/

/-- A list that starts with a closing tag has no tag in front of the first closing one. -/
theorem beforeClosing_cons_closing {tag : RawTag} (tags : List RawTag)
    (h : tag.kind = .closing) : beforeClosing (tag :: tags) = [] := by
  simp [beforeClosing, h]

/-- A list that starts with another tag has this tag in front, and then what the rest has. -/
theorem beforeClosing_cons {tag : RawTag} (tags : List RawTag) (h : tag.kind ≠ .closing) :
    beforeClosing (tag :: tags) = tag :: beforeClosing tags := by
  simp [beforeClosing, h]

/-- The first `n` tags are not closing exactly when `beforeClosing` keeps at least `n` of them. -/
theorem forall_mem_take_ne_closing {tags : List RawTag} {n : Nat} (hn : n ≤ tags.length) :
    (∀ tag ∈ tags.take n, tag.kind ≠ .closing) ↔ n ≤ (beforeClosing tags).length := by
  -- Both sides take one tag off the front, until one closes or `n` is used up.
  induction tags generalizing n with
  | nil =>
      have hzero : n = 0 := by simpa using hn
      simp [hzero]
  | cons tag tags ih =>
      cases n with
      | zero => simp
      | succ n =>
          have hle : n ≤ tags.length := by simpa using hn
          by_cases hk : tag.kind = .closing
          · rw [beforeClosing_cons_closing tags hk]
            simp [hk]
          · rw [beforeClosing_cons tags hk, List.take_succ_cons, List.forall_mem_cons, ih hle,
              List.length_cons, Nat.add_le_add_iff_right]
            exact and_iff_right hk

/-- There is no closing tag exactly when `beforeClosing` keeps all tags. -/
theorem forall_mem_ne_closing {tags : List RawTag} :
    (∀ tag ∈ tags, tag.kind ≠ .closing) ↔ tags.length ≤ (beforeClosing tags).length := by
  have h := forall_mem_take_ne_closing (Nat.le_refl tags.length)
  rwa [List.take_length] at h

/-- The tags in front of the first closing one are no more than all tags. -/
theorem length_beforeClosing_le (tags : List RawTag) :
    (beforeClosing tags).length ≤ tags.length :=
  (List.takeWhile_sublist _).length_le

/-- A result that is not an error is a value. -/
theorem exists_of_isOk {ε α : Type} {result : Except ε α} (h : result.isOk = true) :
    ∃ value, result = .ok value := by
  cases result with
  | error error => cases h
  | ok value => exact ⟨value, rfl⟩

/-- A slot stays empty exactly when `decode` fails on every tag of its kind. -/
theorem lastAccepted_eq_none {α : Type} {kind : TagKind}
    {decode : RawTag → Except TagRejection α} {tags : List RawTag} :
    lastAccepted kind decode tags = none ↔
      ∀ tag ∈ tags, tag.kind = kind → (decode tag).isOk = false := by
  unfold lastAccepted
  rw [List.getLast?_eq_none_iff, List.filterMap_eq_nil_iff]
  -- A slot looks at each tag alone.
  have hone (tag : RawTag) : (if tag.kind = kind then (decode tag).toOption else none) = none ↔
      (tag.kind = kind → (decode tag).isOk = false) := by
    by_cases hk : tag.kind = kind
    · cases hd : decode tag <;> simp [hk, Except.toOption, Except.isOk, Except.toBool]
    · simp [hk]
  simp only [hone]

/-- What a slot holds is what `decode` made of one of the tags, which is of the kind of the slot. -/
theorem exists_of_lastAccepted {α : Type} {kind : TagKind}
    {decode : RawTag → Except TagRejection α} {tags : List RawTag} {view : α}
    (h : lastAccepted kind decode tags = some view) :
    ∃ tag ∈ tags, tag.kind = kind ∧ decode tag = .ok view := by
  obtain ⟨tag, hmem, htag⟩ := List.mem_filterMap.mp (List.mem_of_getLast? h)
  refine ⟨tag, hmem, ?_⟩
  -- Other kinds and decoders that fail leave nothing to be the last of.
  split at htag
  · rename_i hkind
    cases hdecode : decode tag with
    | error reason =>
        rw [hdecode] at htag
        cases htag
    | ok found =>
        rw [hdecode] at htag
        cases htag
        exact ⟨hkind, rfl⟩
  · cases htag

namespace BootInfo

namespace Survey

/-! ### How a survey ends -/

/-- How a survey with room for `room` visits ends on `tags`: at the first closing
tag if that is reached in time, and otherwise when either the room or the tags run out. -/
def endingOf (room : Nat) (tags : List RawTag) : Ending :=
  if (beforeClosing tags).length < min room tags.length then .closed
  else if room < tags.length then .capped
  else .unterminated

/-- How a survey ends depends on the room and the kinds of the tags only: `endingOf` computes it
from the tags, without a record. -/
theorem run_fst (survey : Survey) (room : Nat) (tags : List RawTag) :
    (survey.run room tags).1 = endingOf room tags := by
  -- A visit takes one tag and one unit of room, which leaves the ending as it is.
  induction tags generalizing survey room with
  | nil =>
      rw [run_nil]
      simp [endingOf]
  | cons tag tags ih =>
      cases room with
      | zero => simp [run, endingOf]
      | succ room =>
          by_cases hk : tag.kind = .closing
          · rw [run_closing survey room tags hk, endingOf, beforeClosing_cons_closing tags hk]
            simp
          · rw [run_visit survey room tags hk, ih, endingOf, endingOf, beforeClosing_cons tags hk]
            simp only [List.length_cons, Nat.add_lt_add_iff_right, Nat.add_min_add_right]

/-- The room runs out exactly when there are more tags than room, and none of those that fit is
closing. -/
theorem endingOf_eq_capped {room : Nat} {tags : List RawTag} :
    endingOf room tags = .capped ↔
      room < tags.length ∧ ∀ tag ∈ tags.take room, tag.kind ≠ .closing := by
  have hle := length_beforeClosing_le tags
  constructor
  · intro h
    unfold endingOf at h
    split at h
    · cases h
    · rename_i hlate
      split at h
      · rename_i hroom
        exact ⟨hroom, (forall_mem_take_ne_closing (by omega)).mpr (by omega)⟩
      · cases h
  · rintro ⟨hroom, hnone⟩
    have hlate := (forall_mem_take_ne_closing (Nat.le_of_lt hroom)).mp hnone
    rw [endingOf, if_neg (by omega), if_pos hroom]

/-- The tags run out exactly when there is room for all of them and none is closing. -/
theorem endingOf_eq_unterminated {room : Nat} {tags : List RawTag} :
    endingOf room tags = .unterminated ↔
      tags.length ≤ room ∧ ∀ tag ∈ tags, tag.kind ≠ .closing := by
  have hle := length_beforeClosing_le tags
  rw [forall_mem_ne_closing]
  constructor
  · intro h
    unfold endingOf at h
    split at h
    · cases h
    · split at h
      · cases h
      · omega
  · rintro ⟨hroom, hopen⟩
    rw [endingOf, if_neg (by omega), if_neg (by omega)]

/-- A survey ends at a closing tag exactly when the first one is reached before the room and the
tags run out. -/
theorem endingOf_eq_closed {room : Nat} {tags : List RawTag} :
    endingOf room tags = .closed ↔ (beforeClosing tags).length < min room tags.length := by
  constructor
  · intro h
    refine Decidable.byContradiction fun hlate => ?_
    rw [endingOf, if_neg hlate] at h
    split at h <;> cases h
  · intro hearly
    rw [endingOf, if_pos hearly]

/-- A survey looks at one tag more than it may visit and at no others, so it does not matter that
`Region.firstTags` stops there. -/
theorem run_take (survey : Survey) (room : Nat) (tags : List RawTag) :
    survey.run room (tags.take (room + 1)) = survey.run room tags := by
  -- Without room the survey still asks whether there is one more tag.
  induction room generalizing survey tags with
  | zero => cases tags <;> rfl
  | succ room ih =>
      cases tags with
      | nil => rfl
      | cons tag tags =>
          rw [List.take_succ_cons]
          by_cases hk : tag.kind = .closing
          · rw [run_closing survey room _ hk, run_closing survey room _ hk]
          · rw [run_visit survey room _ hk, run_visit survey room _ hk, ih]

/-! ### What a survey finds -/

/-- One step keeps the invariant of the survey: if the record is `ofTags` of the visited tags before
`visit`, it is `ofTags` of one tag more after it. -/
theorem visit_info {survey : Survey} {visited : List RawTag} (h : survey.info = ofTags visited)
    (tag : RawTag) : (survey.visit tag).info = ofTags (visited ++ [tag]) := by
  unfold visit
  -- A refused tag adds to no slot, an accepted one comes last in its own.
  cases haccept : survey.info.accept tag with
  | error reason => rw [ofTags_of_refused visited (accept_eq_error.mp haccept), h]
  | ok info =>
      rw [h] at haccept
      exact accept_ofTags haccept

/-- By `visit_info`, the record that `run` ends with is `ofTags` of the tags visited before and
those that the run visits. This ties the fold of the program to the slots. -/
theorem run_info {survey : Survey} {visited : List RawTag} (h : survey.info = ofTags visited)
    (room : Nat) (tags : List RawTag) :
    (survey.run room tags).2.info = ofTags (visited ++ (beforeClosing tags).take room) := by
  -- The invariant is the hypothesis, so any survey that has it may start.
  induction tags generalizing survey visited room with
  | nil =>
      rw [run_nil, h]
      simp [beforeClosing]
  | cons tag tags ih =>
      cases room with
      | zero => simp [run, h]
      | succ room =>
          by_cases hk : tag.kind = .closing
          · rw [run_closing survey room tags hk, beforeClosing_cons_closing tags hk, h]
            simp
          · -- The visited tag joins those that what is known goes back to.
            rw [run_visit survey room tags hk, ih (visit_info h tag), beforeClosing_cons tags hk,
              List.take_succ_cons, List.append_assoc, List.singleton_append]

/-! ### What a survey sees of its tags -/

/-- Tags that a survey cannot tell apart: they are of the same kind, and one and the same
if that kind has a slot. -/
structure Alike (tag tag' : RawTag) : Prop where
  kind_eq : tag.kind = tag'.kind
  eq_of_isConsumed : tag.kind.isConsumed = true → tag = tag'

/-- A tag cannot be told apart from itself. -/
theorem Alike.refl (tag : RawTag) : Alike tag tag :=
  ⟨rfl, fun _ => rfl⟩

/-- Tags that are alike have the same effect on a survey, on its record and on its log. -/
theorem visit_congr {tag tag' : RawTag} (h : Alike tag tag') (survey : Survey) :
    survey.visit tag = survey.visit tag' := by
  cases hconsumed : tag.kind.isConsumed with
  | true => rw [h.eq_of_isConsumed hconsumed]
  | false =>
      have hconsumed' : tag'.kind.isConsumed = false := h.kind_eq ▸ hconsumed
      rw [visit, visit, accept_of_ignored hconsumed, accept_of_ignored hconsumed']

/-- A survey goes alike on two lists of tags that are alike one by one, by `visit_congr` at each
step. -/
theorem run_congr {tags tags' : List RawTag} (h : List.Forall₂ Alike tags tags')
    (survey : Survey) (room : Nat) : survey.run room tags = survey.run room tags' := by
  induction h generalizing survey room with
  | nil => rfl
  | @cons tag tag' tags tags' hfirst hrest ih =>
      cases room with
      | zero => rfl
      | succ room =>
          -- Tags that are alike have one kind, so both runs stop at the same place.
          by_cases hk : tag.kind = .closing
          · have hk' : tag'.kind = .closing := hfirst.kind_eq ▸ hk
            rw [run_closing survey room tags hk, run_closing survey room tags' hk']
          · have hk' : tag'.kind ≠ .closing := hfirst.kind_eq ▸ hk
            rw [run_visit survey room tags hk, run_visit survey room tags' hk',
              visit_congr hfirst, ih]

end Survey

/-! ### The survey of a region -/

/-- The survey of a region is a run over all of its tags, although the program looks at no more of
them than it needs. -/
theorem survey_eq_run (region : Region) (limits : Limits) :
    survey region limits = Survey.run { info := unknown } limits.maxTags.toNat region.tags := by
  rw [survey, region.firstTags_eq_take, Survey.run_take]

/-- The survey of a region ends as `endingOf` says of all its tags. -/
theorem survey_fst (region : Region) (limits : Limits) :
    (survey region limits).1 = Survey.endingOf limits.maxTags.toNat region.tags := by
  rw [survey_eq_run, Survey.run_fst]

/-- The survey of a region finds what the first `maxTags` of the tags in front of the closing one
say. -/
theorem survey_info (region : Region) (limits : Limits) :
    (survey region limits).2.info =
      ofTags ((beforeClosing region.tags).take limits.maxTags.toNat) := by
  rw [survey_eq_run, Survey.run_info ofTags_nil.symm, List.nil_append]

/-- Regions with the same survey have the same outcome and the same log. -/
theorem parseRegion_congr {region region' : Region} {limits : Limits}
    (h : survey region limits = survey region' limits) :
    parseRegion region limits = parseRegion region' limits := by
  unfold parseRegion examine
  rw [h]

/-- The outcome of `parseRegion` is read off the ending of the survey: too many tags, no end tag, or
at a closing tag the record, if it has a memory map. -/
theorem parseRegion_value_eq (region : Region) (limits : Limits) :
    (parseRegion region limits).value =
      match Survey.endingOf limits.maxTags.toNat region.tags with
      | .capped       => .error (.tooManyTags limits.maxTags)
      | .unterminated => .error .missingEndTag
      | .closed       =>
          if (survey region limits).2.info.memoryMap.isSome then
            .ok (survey region limits).2.info
          else
            .error .missingMemoryMap := by
  have hending := survey_fst region limits
  unfold parseRegion examine
  -- Only the ending and what was found matter, not the run behind them.
  generalize survey region limits = outcome at hending ⊢
  obtain ⟨ending, found⟩ := outcome
  dsimp only at hending ⊢
  rw [← hending]
  cases ending with
  | capped => rfl
  | unterminated => rfl
  | closed =>
      dsimp only
      rw [fatal?]
      by_cases hmap : found.info.memoryMap.isSome
      · rw [if_pos hmap, if_pos hmap]
      · rw [if_neg hmap, if_neg hmap]

/-- Take a region whose first closing tag is reached in time. Then `parseRegion` returns `ofTags` of
the tags in front of it, if there is a memory map among those. -/
theorem parseRegion_value_of_closed {region : Region} {limits : Limits}
    (h : (beforeClosing region.tags).length < min limits.maxTags.toNat region.tags.length) :
    (parseRegion region limits).value =
      if (ofTags (beforeClosing region.tags)).memoryMap.isSome then
        .ok (ofTags (beforeClosing region.tags))
      else
        .error .missingMemoryMap := by
  have hinfo := survey_info region limits
  rw [List.take_of_length_le (by omega)] at hinfo
  rw [parseRegion_value_eq, Survey.endingOf_eq_closed.mpr h, hinfo]

/-- The outcome of `parseRegion` for every region. It fails with too many tags if there are more
than `maxTags` and none of the first `maxTags` is closing; else with a missing end tag if no tag at
all is closing; else with a missing memory map if `MemoryMap.decode` accepts no tag in front of the
first closing one. Otherwise each slot holds what the last acceptable tag of its kind says, by
`ofTags`. -/
theorem parseRegion_value (region : Region) (limits : Limits) :
    (parseRegion region limits).value =
      if limits.maxTags.toNat < region.tags.length ∧
          ∀ tag ∈ region.tags.take limits.maxTags.toNat, tag.kind ≠ .closing then
        .error (.tooManyTags limits.maxTags)
      else if ∀ tag ∈ region.tags, tag.kind ≠ .closing then
        .error .missingEndTag
      else if ∀ tag ∈ beforeClosing region.tags,
          tag.kind = .memoryMap → (MemoryMap.decode tag).isOk = false then
        .error .missingMemoryMap
      else
        .ok (ofTags (beforeClosing region.tags)) := by
  -- The two endings without a closing tag are the first two conditions.
  cases hending : Survey.endingOf limits.maxTags.toNat region.tags with
  | capped => rw [parseRegion_value_eq, hending, if_pos (Survey.endingOf_eq_capped.mp hending)]
  | unterminated =>
      obtain ⟨hroom, hopen⟩ := Survey.endingOf_eq_unterminated.mp hending
      have hcapped : ¬ (limits.maxTags.toNat < region.tags.length ∧
          ∀ tag ∈ region.tags.take limits.maxTags.toNat, tag.kind ≠ .closing) :=
        fun h => Nat.not_lt.mpr hroom h.1
      rw [parseRegion_value_eq, hending, if_neg hcapped, if_pos hopen]
  | closed =>
      have hearly := Survey.endingOf_eq_closed.mp hending
      have hcapped : ¬ (limits.maxTags.toNat < region.tags.length ∧
          ∀ tag ∈ region.tags.take limits.maxTags.toNat, tag.kind ≠ .closing) := by
        intro h
        rw [Survey.endingOf_eq_capped.mpr h] at hending
        cases hending
      have hopen : ¬ ∀ tag ∈ region.tags, tag.kind ≠ .closing := by
        rw [forall_mem_ne_closing]
        omega
      have hslot : (∀ tag ∈ beforeClosing region.tags,
          tag.kind = .memoryMap → (MemoryMap.decode tag).isOk = false) ↔
            (ofTags (beforeClosing region.tags)).memoryMap = none :=
        lastAccepted_eq_none.symm
      rw [if_neg hcapped, if_neg hopen, parseRegion_value_of_closed hearly]
      by_cases hnone : (ofTags (beforeClosing region.tags)).memoryMap = none
      · rw [if_pos (hslot.mpr hnone), if_neg (by rw [hnone]; exact Bool.false_ne_true)]
      · rw [if_neg (mt hslot.mp hnone), if_pos (Option.isSome_iff_ne_none.mpr hnone)]

end BootInfo

end EarlyBoot

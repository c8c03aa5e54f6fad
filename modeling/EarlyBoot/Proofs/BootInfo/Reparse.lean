import EarlyBoot.Proofs.BootInfo.Outcome
import EarlyBoot.Region.Writer

/-!
# `EarlyBoot.Proofs.BootInfo.Reparse`: parsing into what is known already

A region can be parsed for a fresh record, or into a record that is there already. Both
go by the same survey, so they agree on whether the region is good and on what it says.
They differ in what a bad region leaves: a refused header leaves the record alone, and
any other failure leaves what the visited tags say, with nothing of the old record.

Main statements:

* `examine_value` : a survey tells what the visited tags say, whether that is enough or not;
* `parse_value_of_ok` : a fresh record after a region was parsed;
* `read_of_parse_header` : a header is only blamed if it is refused;
* `reparse_of_ok`, `reparse_of_error` : the record after a region was parsed into it;
* `reparse_value` : parsing into a record agrees with parsing for a fresh one.
-/

set_option autoImplicit false

namespace EarlyBoot

/-- The tags of a region that a survey visits: those in front of the first closing one,
and no more than may be visited. -/
def Region.visited (region : Region) (limits : Limits) : List RawTag :=
  (beforeClosing region.tags).take limits.maxTags.toNat

namespace BootInfo

/-! ### What a survey tells -/

/-- A survey tells what `ofTags` makes of the visited tags, whether that is enough or not, and
beside it the fatal error that `fatal?` finds. -/
theorem examine_value (region : Region) (limits : Limits) :
    (examine region limits).value =
      (fatal? limits (survey region limits), ofTags (region.visited limits)) := by
  have hinfo : (survey region limits).2.info = ofTags (region.visited limits) :=
    survey_info region limits
  unfold examine
  rw [← hinfo]
  cases hfatal : fatal? limits (survey region limits) with
  | none => simp only [hfatal]
  | some error => simp only [hfatal]

/-- A region is parsed to `ofTags` of its visited tags, unless `fatal?` finds that the survey ends
badly. -/
theorem parseRegion_value_eq_visited (region : Region) (limits : Limits) :
    (parseRegion region limits).value =
      match fatal? limits (survey region limits) with
      | none       => .ok (ofTags (region.visited limits))
      | some error => .error error := by
  have hvalue := examine_value region limits
  unfold parseRegion
  -- Only the value of the survey matters, not the log that comes with it.
  generalize examine region limits = outcome at hvalue ⊢
  obtain ⟨value, records⟩ := outcome
  change value = _ at hvalue
  rw [hvalue]
  cases fatal? limits (survey region limits) with
  | none => rfl
  | some error => rfl

/-- Take bytes with an accepted header. Then `parse` returns `ofTags` of the tags that the survey
visited, unless `fatal?` finds that it ends badly. -/
theorem parse_value_of_ok {bytes : ByteArray} {region : Region} {limits : Limits}
    (h : Region.read bytes limits = .ok region) :
    (parse bytes limits).value =
      match fatal? limits (survey region limits) with
      | none       => .ok (ofTags (region.visited limits))
      | some error => .error error := by
  rw [← parseRegion_value_eq_visited, parse, h]

/-! ### Who is to blame -/

/-- The ending of a survey is never blamed on a header, which was accepted before it started. -/
theorem fatal?_ne_header (limits : Limits) (outcome : Ending × Survey) (error : HeaderError) :
    fatal? limits outcome ≠ some (.header error) := by
  obtain ⟨ending, found⟩ := outcome
  intro h
  cases ending with
  | capped => cases h
  | unterminated => cases h
  | closed =>
      rw [fatal?] at h
      split at h <;> cases h

/-- Bytes that `parse` refuses for their header are refused by `Header.read`, for the same
reason. -/
theorem read_of_parse_header {bytes : ByteArray} {limits : Limits} {error : HeaderError}
    (h : (parse bytes limits).value = .error (.header error)) :
    Header.read bytes limits = .error error := by
  cases hread : Region.read bytes limits with
  | error found =>
      rw [parse_of_header_error hread] at h
      cases h
      exact Region.read_eq_error.mp hread
  | ok region =>
      rw [parse_value_of_ok hread] at h
      cases hfatal : fatal? limits (survey region limits) with
      | none =>
          rw [hfatal] at h
          cases h
      | some found =>
          rw [hfatal] at h
          cases h
          exact absurd hfatal (fatal?_ne_header limits _ error)

/-! ### The record afterwards -/

/-- Take bytes whose header is refused. Then `reparse` answers with a failure and leaves the record
as it was, in every field. -/
theorem reparse_of_error {bytes : ByteArray} {error : HeaderError}
    (h : Region.read bytes .standard = .error error) (known : BootInfo) :
    (known.reparse bytes).value = (false, known) := by
  rw [reparse, h]

/-- Take bytes with an accepted header. Then nothing is left of what was known before: `reparse`
returns `ofTags` of the visited tags, and whether `fatal?` found anything. -/
theorem reparse_of_ok {bytes : ByteArray} {region : Region}
    (h : Region.read bytes .standard = .ok region) (known : BootInfo) :
    (known.reparse bytes).value =
      ((fatal? .standard (survey region .standard)).isNone, ofTags (region.visited .standard)) := by
  rw [reparse, h]
  show ((examine region .standard).value.1.isNone, (examine region .standard).value.2) = _
  rw [examine_value]

/-- What `reparse` does to a record, whatever the record held before. It succeeds exactly when
`parse` does, with the same record. A refused header leaves the record as it was. A region that is
refused for anything else leaves in each slot what the last acceptable tag of its kind says, of the
tags in `Region.visited`. -/
theorem reparse_value (known : BootInfo) (bytes : ByteArray) :
    (∀ info, (known.reparse bytes).value = (true, info) ↔
        (parse bytes .standard).value = .ok info) ∧
      (∀ error, Region.read bytes .standard = .error error →
        (known.reparse bytes).value = (false, known)) ∧
      ∀ region, Region.read bytes .standard = .ok region →
        ∀ error, (parse bytes .standard).value = .error error →
          (known.reparse bytes).value = (false, ofTags (region.visited .standard)) := by
  refine ⟨?_, ?_, ?_⟩
  · intro info
    cases hread : Region.read bytes .standard with
    | error error =>
        rw [reparse_of_error hread, parse_of_header_error hread]
        constructor <;> intro h <;> cases h
    | ok region =>
        rw [reparse_of_ok hread, parse_value_of_ok hread]
        cases fatal? .standard (survey region .standard) with
        | none => simp
        | some error => simp
  · intro error hread
    exact reparse_of_error hread known
  · intro region hread error herror
    rw [parse_value_of_ok hread] at herror
    -- The walk is over when a fatal error is found, so the record holds what it visited.
    rw [reparse_of_ok hread]
    cases hfatal : fatal? .standard (survey region .standard) with
    | none =>
        rw [hfatal] at herror
        cases herror
    | some _ => rfl

/-- A region without tags is no good, and leaves nothing of the old totals. -/
example :
    (reparse { usableMebibytes := 64, processorCount := 4 } RegionWriter.empty.closedBytes).value =
      (false, unknown) := by
  decide

end BootInfo

end EarlyBoot

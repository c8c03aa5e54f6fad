import EarlyBoot.Proofs.BootInfo.Reparse
import EarlyBoot.Proofs.Text.Wording
import EarlyBoot.Region.Writer

/-!
# `EarlyBoot.Proofs.BootInfo.Account`: what the log tells of a parsed region

A survey speaks while it goes: of each tag that it passes over, and at the end of the fatal
error, if there is one. The log is written in the same loop that counts the visits and looks
for the closing tag. Here it is said apart from that loop, as an account of the region: the
tags that are visited are known beforehand (`Region.visited`), whether one of them is refused
is a matter of that tag alone (`RawTag.refusal?`), and the fatal error is what the region is
parsed to. The account is spelled out, down to the names of kinds and the reasons of refusals
(`Wording`); it takes none of them from the parser.

The invariant of the loop is that its log is the one that it was started with, and behind it
a record for each refused tag visited since.

Main statements:

* `Survey.visit_records`, `Survey.run_records` : what one visit logs, and what all of them do;
* `examine_records` : the log of a survey with its fatal error;
* `toList_parse_records` : the log of a parsed region is its account;
* `parse_records` : what stands in it, and that it is the same for a known record.
-/

set_option autoImplicit false

namespace EarlyBoot

open Text (decimal hex)

/-- The record of each refused tag: its kind, where it stands and the reason, in words. -/
def skippedRecords (tags : List RawTag) : List Log.Record :=
  (refusals tags).map fun (tag, reason) => {
    level := .trace
    target := "kernel_bootinfo::parse"
    message := "boot info: skipping " ++ Wording.kind tag.kind ++ " tag at offset " ++
      hex 0 tag.position.offset ++ ": " ++ Wording.rejection reason }

namespace BootInfo

/-- The record of a fatal error, if a region with a good header is parsed to one. -/
def fatalRecords : Except ParseError BootInfo → List Log.Record
  | .ok _                => []
  | .error (.header _)   => []
  | .error (.tooManyTags maxTags) => [{
      level := .debug
      target := "kernel_bootinfo::parse"
      message := "boot info: giving up after " ++ decimal maxTags.toNat ++ " tags" }]
  | .error .missingEndTag => [{
      level := .debug
      target := "kernel_bootinfo::parse"
      message := "boot info: tag list is not terminated" }]
  | .error .missingMemoryMap => [{
      level := .debug
      target := "kernel_bootinfo::parse"
      message := "boot info: no usable memory map tag" }]

/-- What there is to tell of a parsed region: nothing of one with a bad header, else the
visited tags that are refused, in order, and the fatal error. -/
def account (bytes : ByteArray) (limits : Limits) : List Log.Record :=
  match Region.read bytes limits with
  | .error _   => []
  | .ok region => skippedRecords (region.visited limits) ++ fatalRecords (parse bytes limits).value

/-! ### One tag after the other -/

/-- The reason that `RawTag.refusal?` finds is the reason of the step: a tag has it exactly if its
kind has a slot and `BootInfo.accept` fails with it, whatever record the step starts from. -/
theorem refusal?_eq_some_iff {tag : RawTag} {reason : TagRejection} :
    tag.refusal? = some reason ↔
      tag.kind.isConsumed = true ∧ ∀ info : BootInfo, info.accept tag = .error reason := by
  constructor
  · intro h
    refine ⟨?_, fun info => accept_eq_error.mpr h⟩
    -- Without a slot the tag would be accepted.
    cases hconsumed : tag.kind.isConsumed with
    | true => rfl
    | false =>
        have hrefused : unknown.accept tag = .error reason := accept_eq_error.mpr h
        rw [accept_of_ignored hconsumed] at hrefused
        cases hrefused
  · rintro ⟨-, h⟩
    exact accept_eq_error.mp (h unknown)

/-- A tag that `BootInfo.accept` takes has no reason to be refused. -/
theorem refusal?_of_accept_ok {tag : RawTag} {info known : BootInfo}
    (h : info.accept tag = .ok known) : tag.refusal? = none := by
  cases hrefusal : tag.refusal? with
  | none => rfl
  | some reason =>
      rw [accept_eq_error.mpr hrefusal] at h
      cases h

/-- The records of two lists of tags are those of the first and then those of the second. -/
theorem skippedRecords_append (tags more : List RawTag) :
    skippedRecords (tags ++ more) = skippedRecords tags ++ skippedRecords more := by
  rw [skippedRecords, refusals, List.filterMap_append, List.map_append]
  rfl

namespace Survey

/-- One step of the survey: `visit` adds the record of the tag to the log if the tag is refused, and
leaves the log as it is if not. -/
theorem visit_records (survey : Survey) (tag : RawTag) :
    (survey.visit tag).records.toList = survey.records.toList ++ skippedRecords [tag] := by
  unfold visit
  cases haccept : survey.info.accept tag with
  | error reason =>
      have hrefused := accept_eq_error.mp haccept
      simp [skippedRecords, refusals, hrefused, skipRecord, parserTarget, Wording.kind_eq,
        Wording.rejection_eq]
  | ok info =>
      simp [skippedRecords, refusals, refusal?_of_accept_ok haccept]

/-- The run of a survey adds one record for each refused tag among those that it visits, in their
order. The tags it visits are the first `room` of those in front of the closing one. -/
theorem run_records (survey : Survey) (room : Nat) (tags : List RawTag) :
    (survey.run room tags).2.records.toList =
      survey.records.toList ++ skippedRecords ((beforeClosing tags).take room) := by
  -- A visit moves its own record behind those that the survey was started with.
  induction tags generalizing survey room with
  | nil => simp [run_nil, beforeClosing, skippedRecords, refusals]
  | cons tag tags ih =>
      cases room with
      | zero => simp [run, skippedRecords, refusals]
      | succ room =>
          by_cases hk : tag.kind = .closing
          · rw [run_closing survey room tags hk, beforeClosing_cons_closing tags hk]
            simp [skippedRecords, refusals]
          · have hfirst (visited : List RawTag) :
                skippedRecords (tag :: visited) = skippedRecords [tag] ++ skippedRecords visited :=
              skippedRecords_append [tag] visited
            rw [run_visit survey room tags hk, ih, visit_records, beforeClosing_cons tags hk,
              List.take_succ_cons, List.append_assoc, ← hfirst]

end Survey

/-! ### The survey of a region -/

/-- The survey of a region starts with an empty log, so it ends with the records of the tags that
`Region.visited` lists and no others. -/
theorem survey_records (region : Region) (limits : Limits) :
    (survey region limits).2.records.toList = skippedRecords (region.visited limits) := by
  rw [survey_eq_run, Survey.run_records, Region.visited]
  rfl

/-- An error that `fatal?` finds at the end of a survey leaves exactly one record, which
`fatalRecord` writes and `fatalRecords` spells out. -/
theorem fatalRecords_of_fatal {limits : Limits} {outcome : Ending × Survey} {error : ParseError}
    (h : fatal? limits outcome = some error) :
    fatalRecords (.error error) = [fatalRecord error] := by
  cases error with
  | header error => exact absurd h (fatal?_ne_header limits outcome error)
  | tooManyTags _ => rfl
  | missingEndTag => rfl
  | missingMemoryMap => rfl

/-- The log of `examine` has two parts: the records of the skipped tags, and behind them the record
of the fatal error, if `parseRegion` ends in one. -/
theorem examine_records (region : Region) (limits : Limits) :
    (examine region limits).records.toList =
      skippedRecords (region.visited limits) ++ fatalRecords (parseRegion region limits).value := by
  rw [parseRegion_value_eq_visited, ← survey_records]
  unfold examine
  cases hfatal : fatal? limits (survey region limits) with
  | none => simp only [hfatal, fatalRecords, List.append_nil]
  | some error => simp only [hfatal, fatalRecords_of_fatal hfatal, Array.toList_push]

/-- A region is parsed with the log of its survey; `parseRegion` only reads the outcome off it. -/
theorem parseRegion_records (region : Region) (limits : Limits) :
    (parseRegion region limits).records = (examine region limits).records := by
  unfold parseRegion
  obtain ⟨⟨fatal, info⟩, records⟩ := examine region limits
  cases fatal <;> rfl

/-- Parsing into a record leaves the log of `parse` with the standard limits, whatever the record
held before. -/
theorem reparse_records (known : BootInfo) (bytes : ByteArray) :
    (known.reparse bytes).records = (parse bytes .standard).records := by
  cases hread : Region.read bytes .standard with
  | error error => rw [reparse, parse, hread]
  | ok region => rw [reparse, parse, hread, ← parseRegion_records]

/-- Take bytes whose header is good and that `parse` refuses. Then `fatalRecords` has exactly one
record for the error, at debug level and from the parser. -/
theorem exists_fatalRecords {bytes : ByteArray} {limits : Limits} {region : Region}
    {error : ParseError} (hread : Region.read bytes limits = .ok region)
    (herror : (parse bytes limits).value = .error error) :
    ∃ message, fatalRecords (.error error) =
      [{ level := .debug, target := "kernel_bootinfo::parse", message }] := by
  cases error with
  | header error =>
      -- The header was accepted, so it is not to blame.
      have hrefused := Region.read_eq_error.mpr (read_of_parse_header herror)
      rw [hread] at hrefused
      cases hrefused
  | tooManyTags _ => exact ⟨_, rfl⟩
  | missingEndTag => exact ⟨_, rfl⟩
  | missingMemoryMap => exact ⟨_, rfl⟩

/-- The log of `parse` is the account of its region, for all bytes and all limits. -/
theorem toList_parse_records (bytes : ByteArray) (limits : Limits) :
    (parse bytes limits).records.toList = account bytes limits := by
  unfold account
  cases hread : Region.read bytes limits with
  | error error => rw [parse_of_header_error hread]
  | ok region =>
      have hregion : parse bytes limits = parseRegion region limits := by rw [parse, hread]
      rw [hregion, parseRegion_records, examine_records]

/-- The log of a parsed region is an exact account of what was passed over. A region with a
bad header leaves no log. Behind a good one there is a record for each visited tag that is
refused, in order, and for no other tag; refused are exactly the tags of a kind with a slot
that the decoder of the kind fails on. One more record closes the log if there is a fatal
error, and says which. Parsing into a record, whatever that holds, leaves the log of parsing
with the usual limits. -/
theorem parse_records (bytes : ByteArray) (limits : Limits) :
    (parse bytes limits).records.toList = account bytes limits ∧
    (∀ (tag : RawTag) (reason : TagRejection), tag.refusal? = some reason ↔
      tag.kind.isConsumed = true ∧ ∀ info : BootInfo, info.accept tag = .error reason) ∧
    (∀ region error, Region.read bytes limits = .ok region →
      (parse bytes limits).value = .error error →
      ∃ message, fatalRecords (.error error) =
        [{ level := .debug, target := "kernel_bootinfo::parse", message }]) ∧
    ∀ known : BootInfo, (known.reparse bytes).records.toList = account bytes .standard := by
  refine ⟨toList_parse_records bytes limits, fun tag reason => refusal?_eq_some_iff,
    fun region error => exists_fatalRecords, fun known => ?_⟩
  rw [reparse_records, toList_parse_records]

/-- Take a region with one tag for each reason of a refusal, a tag of a vendor among them, and an
accepted text behind them. Then `parse` logs the five skipped tags, each with its kind, its offset
and the reason, and at last that there is no memory map. `reparse` logs the same, whatever was
known before. -/
theorem parse_records_refused :
    let region := RegionWriter.empty
      |>.rawTag 0x3 0 (Bytes.filled 8 1)
      |>.memoryMapRaw 8 1 (Bytes.filled 24 0)
      |>.rawTag 0x8001 0 (Bytes.filled 3 0)
      |>.memoryMapRaw 24 2 (Bytes.filled 24 0)
      |>.acpiRoot 0
      |>.rawTag 0x1 0 (Bytes.filled 5 0x61)
      |>.bootloader "ok"
      |>.closedBytes
    let records : List Log.Record :=
      [⟨.trace, "kernel_bootinfo::parse", "boot info: skipping framebuffer tag at offset 0x10: " ++
          "tag of 16 bytes is smaller than the 40 bytes required"⟩,
        ⟨.trace, "kernel_bootinfo::parse", "boot info: skipping memory map tag at offset 0x20: " ++
          "memory map entry size 8 is smaller than an entry"⟩,
        ⟨.trace, "kernel_bootinfo::parse", "boot info: skipping memory map tag at offset 0x58: " ++
          "2 memory map entries of 24 bytes do not fit the tag"⟩,
        ⟨.trace, "kernel_bootinfo::parse", "boot info: skipping ACPI RSDP tag at offset 0x80: " ++
          "RSDP address must not be zero"⟩,
        ⟨.trace, "kernel_bootinfo::parse", "boot info: skipping command line tag at offset " ++
          "0x90: text is not NUL-terminated within the tag"⟩,
        ⟨.debug, "kernel_bootinfo::parse", "boot info: no usable memory map tag"⟩]
    (parse region .standard).records.toList = records ∧
      ∀ known : BootInfo, (known.reparse region).records.toList = records := by
  intro region records
  -- Only the account is computed here; that the parser logs it is the theorem.
  have haccount : account region .standard = records := by decide +kernel
  obtain ⟨hparse, -, -, hreparse⟩ := parse_records region .standard
  exact ⟨hparse.trans haccount, fun known => (hreparse known).trans haccount⟩

end BootInfo

end EarlyBoot

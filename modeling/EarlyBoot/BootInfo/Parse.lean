import EarlyBoot.BootInfo
import EarlyBoot.Log

/-!
# `EarlyBoot.BootInfo.Parse`: from the bytes of a region to what is known

A survey visits the tags of a region in order. It ends at the first closing tag,
at the end of the tags, or when it meets a tag after having visited as many as
it is allowed to. Tags that are refused are skipped and logged. Afterwards the
region is good if the survey ended at a closing tag and found a memory map.

Main statements:

* `Survey.run_closing`, `Survey.run_visit` : how a survey goes on;
* `parse_of_header_error` : a refused header is reported and nothing is logged.
-/

set_option autoImplicit false

namespace EarlyBoot

/-- Why a region is of no use. -/
inductive ParseError where
  | header (error : HeaderError)
  | tooManyTags (maxTags : UInt32)
  | missingEndTag
  | missingMemoryMap
  deriving DecidableEq, Repr

def ParseError.message : ParseError → String
  | .header error => "invalid boot info header: " ++ error.message
  | .tooManyTags maxTags =>
      "more than " ++ Text.decimal maxTags.toNat ++ " tags in boot info region"
  | .missingEndTag => "tag list ended without an end tag"
  | .missingMemoryMap => "no valid memory map tag"

namespace BootInfo

/-- The part that speaks while a region is parsed. -/
def parserTarget : String := "kernel_bootinfo::parse"

/-- How a survey ends. -/
inductive Ending where
  /-- At a closing tag. -/
  | closed
  /-- There are no more tags. -/
  | unterminated
  /-- There are more tags than may be visited. -/
  | capped
  deriving DecidableEq, Repr

/-- What a survey has found so far. -/
structure Survey where
  /-- What the accepted tags say. -/
  info : BootInfo
  /-- One record for each skipped tag. -/
  records : Array Log.Record := #[]

/-- The record of a skipped tag. -/
def skipRecord (tag : RawTag) (reason : TagRejection) : Log.Record where
  level := .trace
  target := parserTarget
  message :=
    "boot info: skipping " ++ tag.kind.name ++ " tag at offset " ++
      Text.hex 0 tag.position.offset ++ ": " ++ reason.message

namespace Survey

/-- Visits one tag: it is accepted, or skipped and logged. -/
def visit (survey : Survey) (tag : RawTag) : Survey :=
  match survey.info.accept tag with
  | .ok info      => { survey with info }
  | .error reason => { survey with records := survey.records.push (skipRecord tag reason) }

/-- Visits tags until a closing one, with room for `room` visits. -/
def run (survey : Survey) : (room : Nat) → (tags : List RawTag) → Ending × Survey
  | _,        []          => (.unterminated, survey)
  | 0,        _ :: _      => (.capped, survey)
  | room + 1, tag :: tags =>
      if tag.kind = .closing then (.closed, survey) else (survey.visit tag).run room tags

end Survey

/-- Surveys the tags of a region. One tag more than may be visited is looked at. -/
def survey (region : Region) (limits : Limits) : Ending × Survey :=
  let room := limits.maxTags.toNat
  Survey.run { info := unknown } room (region.firstTags (room + 1))

/-- The fatal error of a survey, if there is one. -/
def fatal? (limits : Limits) : Ending × Survey → Option ParseError
  | (.capped, _)       => some (.tooManyTags limits.maxTags)
  | (.unterminated, _) => some .missingEndTag
  | (.closed, found)   => if found.info.memoryMap.isSome then none else some .missingMemoryMap

/-- The record of a fatal error that a survey ends with. -/
def fatalRecord (error : ParseError) : Log.Record where
  level := .debug
  target := parserTarget
  message :=
    match error with
    | .header error        => error.message
    | .tooManyTags maxTags => "boot info: giving up after " ++ Text.decimal maxTags.toNat ++ " tags"
    | .missingEndTag       => "boot info: tag list is not terminated"
    | .missingMemoryMap    => "boot info: no usable memory map tag"

/-- What a region says, whether or not that is enough, and the fatal error if not. -/
def examine (region : Region) (limits : Limits) : Log.Logged (Option ParseError × BootInfo) :=
  let outcome := survey region limits
  match fatal? limits outcome with
  | none       => ⟨(none, outcome.2.info), outcome.2.records⟩
  | some error => ⟨(some error, outcome.2.info), outcome.2.records.push (fatalRecord error)⟩

/-- Parses a region that has been read. -/
def parseRegion (region : Region) (limits : Limits) : Log.Logged (Except ParseError BootInfo) :=
  match examine region limits with
  | ⟨(none, info), records⟩    => ⟨.ok info, records⟩
  | ⟨(some error, _), records⟩ => ⟨.error error, records⟩

/-- Reads and parses the region at the start of `bytes`. -/
def parse (bytes : ByteArray) (limits : Limits) : Log.Logged (Except ParseError BootInfo) :=
  match Region.read bytes limits with
  | .error error => ⟨.error (.header error), #[]⟩
  | .ok region   => parseRegion region limits

/-- Parses the region at the start of `bytes` into what is known so far. A refused
header leaves that alone; otherwise all of it is forgotten first, and what is known
afterwards is only to be relied on if the region is good. -/
def reparse (known : BootInfo) (bytes : ByteArray) : Log.Logged (Bool × BootInfo) :=
  match Region.read bytes .standard with
  | .error _   => ⟨(false, known), #[]⟩
  | .ok region =>
      match examine region .standard with
      | ⟨(fatal, info), records⟩ => ⟨(fatal.isNone, info), records⟩

/-! ### How a survey goes on -/

namespace Survey

/-- Take a survey that meets no tag at all. Then `run` ends as `unterminated`, and the survey is
returned as it was. -/
theorem run_nil (survey : Survey) (room : Nat) : survey.run room [] = (.unterminated, survey) := by
  cases room <;> rfl

/-- Take a list that starts with a closing tag. Then `run` ends as `closed`, and the tags behind
that tag are not looked at. -/
theorem run_closing (survey : Survey) (room : Nat) {tag : RawTag} (tags : List RawTag)
    (h : tag.kind = .closing) : survey.run (room + 1) (tag :: tags) = (.closed, survey) := by
  simp [run, h]

/-- Take a list that starts with a tag of any other kind. Then `run` lets `visit` record the tag and
goes on with the rest of the list, with one step less. -/
theorem run_visit (survey : Survey) (room : Nat) {tag : RawTag} (tags : List RawTag)
    (h : tag.kind ≠ .closing) :
    survey.run (room + 1) (tag :: tags) = (survey.visit tag).run room tags := by
  simp [run, h]

end Survey

/-- Take bytes that `Region.read` refuses. Then `parse` returns the same reason as a header error,
and the log is empty: no tag was looked at. -/
theorem parse_of_header_error {bytes : ByteArray} {limits : Limits} {error : HeaderError}
    (h : Region.read bytes limits = .error error) :
    parse bytes limits = ⟨.error (.header error), #[]⟩ := by
  simp [parse, h]

end BootInfo

end EarlyBoot

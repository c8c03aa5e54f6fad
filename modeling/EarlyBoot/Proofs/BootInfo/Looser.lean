import EarlyBoot.Proofs.BootInfo.Outcome
import EarlyBoot.Region.Writer

/-!
# `EarlyBoot.Proofs.BootInfo.Looser`: what looser limits change

Limits act in two places. Two of them are conditions on the header of a region, the third
is the room that a survey has for its visits. Looser limits only lift refusals. A header
that was accepted is accepted as the same region, and a survey that did not run out of
room goes the same way with more of it. So the only outcomes that can change are a refused
header and too many tags.

Main statements:

* `Region.read_of_looser` : an accepted header is accepted under looser limits;
* `Survey.run_of_le` : a survey that has enough room needs no more;
* `parse_of_looser` : which outcomes looser limits leave as they are.
-/

set_option autoImplicit false

namespace EarlyBoot

/-- The limits let everything through that `strict` ones do. -/
structure Limits.LooserThan (loose strict : Limits) : Prop where
  minVersion_le : loose.minVersion ≤ strict.minVersion
  le_maxTotalSize : strict.maxTotalSize ≤ loose.maxTotalSize
  le_maxTags : strict.maxTags ≤ loose.maxTags

variable {strict loose : Limits}

/-! ### The header -/

/-- A header without a fault under the strict limits has none under the loose ones: each bound of
`fault?` is only moved outwards. -/
theorem Header.fault?_of_looser (h : loose.LooserThan strict) {header : Header} {available : Nat}
    (hfault : header.fault? available strict = none) : header.fault? available loose = none := by
  obtain ⟨hmagic, hleast, hmost, hversion, hreserved, hreached⟩ := fault?_eq_none.mp hfault
  exact fault?_eq_none.mpr ⟨hmagic, hleast, UInt32.le_trans hmost h.le_maxTotalSize,
    UInt32.le_trans h.minVersion_le hversion, hreserved, hreached⟩

/-- Bytes that `Region.read` accepts under the strict limits are accepted under the loose ones, and
the region is the same. -/
theorem Region.read_of_looser (h : loose.LooserThan strict) {bytes : ByteArray} {region : Region}
    (hread : read bytes strict = .ok region) : read bytes loose = .ok region := by
  obtain ⟨hheader, hbytes⟩ := read_eq_ok.mp hread
  obtain ⟨hfields, hfault⟩ := Header.read_eq_ok.mp hheader
  exact read_eq_ok.mpr
    ⟨Header.read_eq_ok.mpr ⟨hfields, Header.fault?_of_looser h hfault⟩, hbytes⟩

namespace BootInfo

/-! ### The survey -/

/-- Take a survey that does not run out of room. Then with more room `run` ends in the same way and
with the same findings. -/
theorem Survey.run_of_le {survey : Survey} {room more : Nat} {tags : List RawTag}
    (hle : room ≤ more) (henough : (survey.run room tags).1 ≠ .capped) :
    survey.run more tags = survey.run room tags := by
  -- Both runs make the same visit, and each has one unit of room less for the rest.
  induction tags generalizing survey room more with
  | nil => rw [run_nil, run_nil]
  | cons tag tags ih =>
      cases room with
      | zero => exact absurd rfl henough
      | succ room =>
          cases more with
          | zero => exact absurd hle (Nat.not_succ_le_zero room)
          | succ more =>
              by_cases hk : tag.kind = .closing
              · rw [run_closing survey more tags hk, run_closing survey room tags hk]
              · rw [run_visit survey room tags hk] at henough ⊢
                rw [run_visit survey more tags hk]
                exact ih (Nat.le_of_succ_le_succ hle) henough

/-- Take a region whose survey has enough room under the strict limits. Then `parseRegion` has the
same outcome and the same log under the loose ones. -/
theorem parseRegion_of_looser (h : loose.LooserThan strict) {region : Region}
    (henough : (survey region strict).1 ≠ .capped) :
    parseRegion region loose = parseRegion region strict := by
  have hsame : survey region loose = survey region strict := by
    rw [survey_eq_run] at henough
    rw [survey_eq_run, survey_eq_run]
    exact Survey.run_of_le (UInt32.le_iff_toNat_le.mp h.le_maxTags) henough
  -- The limits are only named in the error of a survey that ran out of room.
  have hfatal : fatal? loose (survey region strict) = fatal? strict (survey region strict) := by
    generalize survey region strict = outcome at henough
    obtain ⟨ending, found⟩ := outcome
    cases ending with
    | capped => exact absurd rfl henough
    | unterminated => rfl
    | closed => rfl
  have hexamine : examine region loose = examine region strict := by
    unfold examine
    rw [hsame]
    dsimp only
    rw [hfatal]
  rw [parseRegion, parseRegion, hexamine]

/-! ### The outcome -/

/-- Take an outcome of `parse` that is neither a bad header nor too many tags. Then the bytes hold a
region, and its survey had enough room. -/
theorem exists_survey_of_value {bytes : ByteArray} {limits : Limits}
    {outcome : Except ParseError BootInfo} (h : (parse bytes limits).value = outcome)
    (hheader : ∀ error, outcome ≠ .error (.header error))
    (htags : ∀ maxTags, outcome ≠ .error (.tooManyTags maxTags)) :
    ∃ region, Region.read bytes limits = .ok region ∧ (survey region limits).1 ≠ .capped := by
  cases hread : Region.read bytes limits with
  | error error =>
      rw [parse_of_header_error hread] at h
      exact absurd h.symm (hheader error)
  | ok region =>
      refine ⟨region, rfl, ?_⟩
      -- A survey that reached the cap would be reported as that, and it was not.
      intro hcapped
      rw [survey_fst] at hcapped
      rw [parse, hread] at h
      dsimp only at h
      rw [parseRegion_value_eq, hcapped] at h
      exact absurd h.symm (htags limits.maxTags)

/-- Take limits that are looser than others in every bound. Bytes that `parse` accepts under the
strict limits it accepts under the loose ones, with the same record and the same log; bytes that
lack an end tag or a memory map are refused for that again, with the same log. -/
theorem parse_of_looser (h : loose.LooserThan strict) (bytes : ByteArray) :
    (∀ info, (parse bytes strict).value = .ok info →
        parse bytes loose = ⟨.ok info, (parse bytes strict).records⟩) ∧
      ∀ error, error = .missingEndTag ∨ error = .missingMemoryMap →
        (parse bytes strict).value = .error error →
          parse bytes loose = ⟨.error error, (parse bytes strict).records⟩ := by
  have hparse {outcome : Except ParseError BootInfo} (hvalue : (parse bytes strict).value = outcome)
      (hheader : ∀ error, outcome ≠ .error (.header error))
      (htags : ∀ maxTags, outcome ≠ .error (.tooManyTags maxTags)) :
      parse bytes loose = ⟨outcome, (parse bytes strict).records⟩ := by
    -- With such an outcome the stricter limits were kept, and they bound the looser ones.
    obtain ⟨region, hread, henough⟩ := exists_survey_of_value hvalue hheader htags
    have hsame : parse bytes loose = parse bytes strict := by
      rw [parse, parse, Region.read_of_looser h hread, hread]
      exact parseRegion_of_looser h henough
    rw [hsame, ← hvalue]
  constructor
  · intro info hvalue
    exact hparse hvalue (by intro error h; cases h) (by intro maxTags h; cases h)
  · rintro error (rfl | rfl) hvalue
    · exact hparse hvalue (by intro error h; cases h) (by intro maxTags h; cases h)
    · exact hparse hvalue (by intro error h; cases h) (by intro maxTags h; cases h)

/-- Take a region of forty bytes with two tags, and limits that it only just keeps. Then `parse`
accepts it under those, and, by `parse_of_looser`, under the loosest limits there are. -/
theorem parse_of_looser_tight :
    let strict : Limits := ⟨1, 40, 2⟩
    let loose : Limits := ⟨0, 0xFFFFFFFF, 0xFFFFFFFF⟩
    let good := (RegionWriter.empty.memoryMap 24 []).closedBytes
    let bad := (RegionWriter.empty.memoryMap 23 []).closedBytes
    loose.LooserThan strict ∧ good.size = 40 ∧
      (∃ info, (parse good strict).value = .ok info ∧ (parse good loose).value = .ok info) ∧
        (parse bad strict).value = .error .missingMemoryMap ∧
          (parse bad loose).value = .error .missingMemoryMap := by
  intro strict loose good bad
  have hloose : loose.LooserThan strict := ⟨by decide, by decide, by decide⟩
  have hbad : (parse bad strict).value = .error .missingMemoryMap := by decide +kernel
  have hok : (parse good strict).value.isOk = true := by decide +kernel
  obtain ⟨info, hgood⟩ := exists_of_isOk hok
  refine ⟨hloose, by decide +kernel, ⟨info, hgood, ?_⟩, hbad, ?_⟩
  · rw [(parse_of_looser hloose good).1 info hgood]
  · rw [(parse_of_looser hloose bad).2 _ (.inr rfl) hbad]

end BootInfo

end EarlyBoot

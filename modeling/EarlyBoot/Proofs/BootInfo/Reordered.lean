import EarlyBoot.BootInfo.Contents
import EarlyBoot.BootInfo.Report
import EarlyBoot.Proofs.BootInfo.Written
import EarlyBoot.Proofs.Record.Unplaced
import EarlyBoot.Proofs.Region.RoundTrip

/-!
# `EarlyBoot.Proofs.BootInfo.Reordered`: the order of tags of different kinds

What is known about a machine is told by the tags of each kind that has a slot, in the
order in which they come. How tags of different kinds are mixed does not matter, nor do
tags without a slot, however many there are and whatever they hold. All that changes is
where the tags lie, which shows nowhere but in the tags that the records keep.

A slot looks at the tags of its kind only (`lastAccepted_congr`), and at their places not
at all (`lastAccepted_map_unplaced`). Two regions that were written from the same tags of
each kind therefore say the same (`parse_reordered`), or both lack a memory map.

Main statements:

* `ofTags_congr` : what is known is told by the tags of each kind;
* `ofTags_map_unplaced` : it is the same wherever the tags are;
* `parse_reordered` : regions with the same tags of each kind say the same.
-/

set_option autoImplicit false

namespace EarlyBoot

/-! ### Slots -/

section Slots

variable {α : Type} {kind : TagKind} {decode : RawTag → Except TagRejection α}

/-- A slot looks at the tags of its own kind only, so `lastAccepted` can be computed from those. -/
theorem lastAccepted_eq_filter (tags : List RawTag) :
    lastAccepted kind decode tags =
      ((tags.filter (·.kind = kind)).filterMap fun tag => (decode tag).toOption).getLast? := by
  unfold lastAccepted
  rw [List.filterMap_filter]
  congr 2
  funext tag
  simp only [decide_eq_true_eq]

/-- Two lists with the same tags of a kind, in the same order, fill the slot of the kind alike. -/
theorem lastAccepted_congr {tags tags' : List RawTag}
    (h : tags.filter (·.kind = kind) = tags'.filter (·.kind = kind)) :
    lastAccepted kind decode tags = lastAccepted kind decode tags' := by
  rw [lastAccepted_eq_filter, lastAccepted_eq_filter, h]

/-- Take a decoder that does not look at the place of a tag. Then it fills a slot with the same view
wherever the tags are, but for the place of the view. -/
theorem lastAccepted_map_unplaced {unplaced : α → α}
    (hdecode : ∀ tag, decode tag.unplaced = (decode tag).map unplaced) (tags : List RawTag) :
    lastAccepted kind decode (tags.map RawTag.unplaced) =
      (lastAccepted kind decode tags).map unplaced := by
  unfold lastAccepted
  rw [List.filterMap_map, ← List.getLast?_map, List.map_filterMap]
  congr 2
  funext tag
  show (if tag.kind = kind then (decode tag.unplaced).toOption else none) = _
  by_cases hkind : tag.kind = kind
  · rw [if_pos hkind, if_pos hkind, hdecode]
    cases decode tag <;> rfl
  · rw [if_neg hkind, if_neg hkind, Option.map_none]

end Slots

namespace BootInfo

/-- The record with the places of its tags forgotten. -/
def unplaced (info : BootInfo) : BootInfo where
  memoryMap := info.memoryMap.map MemoryMap.unplaced
  framebuffer := info.framebuffer.map Framebuffer.unplaced
  commandLine := info.commandLine.map BootText.unplaced
  acpiRoot := info.acpiRoot.map AcpiRoot.unplaced
  processors := info.processors.map Processors.unplaced
  ramdisk := info.ramdisk.map Ramdisk.unplaced
  bootloader := info.bootloader.map BootText.unplaced
  usableMebibytes := info.usableMebibytes
  processorCount := info.processorCount

/-- Two lists that have the same tags of each kind with a slot give the same `ofTags`. -/
theorem ofTags_congr {tags tags' : List RawTag}
    (h : ∀ kind : TagKind, kind.isConsumed = true →
      tags.filter (·.kind = kind) = tags'.filter (·.kind = kind)) :
    ofTags tags = ofTags tags' := by
  simp only [ofTags, lastAccepted_congr (h .memoryMap rfl), lastAccepted_congr (h .framebuffer rfl),
    lastAccepted_congr (h .commandLine rfl), lastAccepted_congr (h .acpiRoot rfl),
    lastAccepted_congr (h .processors rfl), lastAccepted_congr (h .ramdisk rfl),
    lastAccepted_congr (h .bootloader rfl)]

/-- Tags without their places give the record without its places: `ofTags` commutes with
`unplaced`. -/
theorem ofTags_map_unplaced (tags : List RawTag) :
    ofTags (tags.map RawTag.unplaced) = (ofTags tags).unplaced := by
  -- The totals follow from what two of the records say, which is not their places.
  simp only [ofTags, unplaced, lastAccepted_map_unplaced MemoryMap.decode_unplaced,
    lastAccepted_map_unplaced Framebuffer.decode_unplaced,
    lastAccepted_map_unplaced BootText.decode_unplaced,
    lastAccepted_map_unplaced AcpiRoot.decode_unplaced,
    lastAccepted_map_unplaced Processors.decode_unplaced,
    lastAccepted_map_unplaced Ramdisk.decode_unplaced, Option.map_map]
  rfl

/-! ### What does not show the places -/

/-- The contents of a record do not depend on the places of its views. -/
theorem contents_unplaced (info : BootInfo) : info.unplaced.contents = info.contents := by
  simp only [contents, unplaced, Option.map_map]
  rfl

/-- The report about the machine does not depend on the places of the views. -/
theorem systemReport_unplaced (info : BootInfo) :
    info.unplaced.systemReport = info.systemReport := by
  obtain ⟨memoryMap, framebuffer, commandLine, acpiRoot, processors, ramdisk, bootloader,
    usableMebibytes, processorCount⟩ := info
  simp only [systemReport, systemLines, unplaced]
  cases framebuffer <;> cases commandLine <;> cases acpiRoot <;> cases ramdisk <;>
    cases bootloader <;> rfl

/-- The report about memory does not depend on the places of the views. -/
theorem memoryMapReport_unplaced (info : BootInfo) :
    info.unplaced.memoryMapReport = info.memoryMapReport := by
  simp only [memoryMapReport, unplaced]
  cases info.memoryMap <;> rfl

end BootInfo

/-! ### Tags that were written -/

namespace RawTag.Says

variable {tag tag' : RawTag} {s : TagSource}

/-- Two tags that say the same thing are equal, but for their places. -/
theorem unplaced_eq (h : tag.Says s) (h' : tag'.Says s) : tag.unplaced = tag'.unplaced :=
  RawTag.Says.unique ⟨h.header_eq, h.bytes_eq⟩ ⟨h'.header_eq, h'.bytes_eq⟩ rfl

end RawTag.Says

/-- Those of the sources whose tags are of the kind. -/
def TagSource.ofKind (kind : TagKind) (sources : List TagSource) : List TagSource :=
  sources.filter fun s => TagKind.ofCode s.code = kind

namespace Laid

/-- Tags that are laid out from sources say what the sources do, one by one. -/
theorem forall₂_says {offset : Nat} {sources : List TagSource} {tags : List RawTag}
    (h : Laid offset sources tags) : List.Forall₂ RawTag.Says tags sources := by
  induction h with
  | nil => exact .nil
  | cons _ hsays _ ih => exact .cons hsays ih

/-- The tags of one kind say what the sources of that kind do, in the same order. -/
theorem forall₂_says_ofKind {offset : Nat} {sources : List TagSource} {tags : List RawTag}
    (h : Laid offset sources tags) (kind : TagKind) :
    List.Forall₂ RawTag.Says (tags.filter (·.kind = kind)) (TagSource.ofKind kind sources) := by
  refine List.rel_filter ?_ h.forall₂_says
  intro tag s hsays
  simp only [decide_eq_true_eq, hsays.kind_eq]

/-- Two lists of tags that say the same sources are equal, but for their places. -/
theorem map_unplaced_eq {sources : List TagSource} {tags tags' : List RawTag}
    (h : List.Forall₂ RawTag.Says tags sources) (h' : List.Forall₂ RawTag.Says tags' sources) :
    tags.map RawTag.unplaced = tags'.map RawTag.unplaced := by
  induction h generalizing tags' with
  | nil =>
      cases h'
      rfl
  | cons hsays _ ih =>
      cases h' with
      | cons hsays' hrest' => rw [List.map_cons, List.map_cons, hsays.unplaced_eq hsays', ih hrest']

/-- Take two lists of tags that are laid out from the same sources of each kind with a slot. Then
`ofTags` of the one is `ofTags` of the other, but for the places. -/
theorem ofTags_unplaced_eq {offset offset' : Nat} {sources sources' : List TagSource}
    {tags tags' : List RawTag} (h : Laid offset sources tags) (h' : Laid offset' sources' tags')
    (hsame : ∀ kind : TagKind, kind.isConsumed = true →
      TagSource.ofKind kind sources = TagSource.ofKind kind sources') :
    (BootInfo.ofTags tags).unplaced = (BootInfo.ofTags tags').unplaced := by
  rw [← BootInfo.ofTags_map_unplaced, ← BootInfo.ofTags_map_unplaced]
  apply BootInfo.ofTags_congr
  intro kind hconsumed
  have hsays := h.forall₂_says_ofKind kind
  rw [hsame kind hconsumed] at hsays
  rw [List.filter_map, List.filter_map]
  exact map_unplaced_eq hsays (h'.forall₂_says_ofKind kind)

end Laid

/-! ### The outcome -/

/-- Tags that can be written to a region which is good but for what they say. -/
structure RegionWriter.Writable (sources : List TagSource) : Prop where
  /-- None of them closes. -/
  code_ne_zero : ∀ s ∈ sources, s.code ≠ 0
  length_le : sources.length ≤ 999
  size_le : (sources.foldl writeTag empty).closedBytes.size ≤ 16 * 1024 * 1024

namespace BootInfo

/-- Take two lists of sources that a region can be written from, with the same sources of each kind
that has a slot, in the same order kind by kind. Then `parse` of the two regions either refuses both
for the lack of a memory map, or returns records that are equal but for the places of the tags;
their contents and both reports are the same. -/
theorem parse_reordered {sources sources' : List TagSource} (h : RegionWriter.Writable sources)
    (h' : RegionWriter.Writable sources')
    (hsame : ∀ kind : TagKind, kind.isConsumed = true →
      TagSource.ofKind kind sources = TagSource.ofKind kind sources') :
    let bytes := (sources.foldl RegionWriter.writeTag .empty).closedBytes
    let bytes' := (sources'.foldl RegionWriter.writeTag .empty).closedBytes
    ((parse bytes .standard).value = .error .missingMemoryMap ∧
        (parse bytes' .standard).value = .error .missingMemoryMap) ∨
      ∃ info info', (parse bytes .standard).value = .ok info ∧
        (parse bytes' .standard).value = .ok info' ∧ info.unplaced = info'.unplaced ∧
          info.contents = info'.contents ∧ info.systemReport = info'.systemReport ∧
            info.memoryMapReport = info'.memoryMapReport := by
  intro bytes bytes'
  obtain ⟨tags, hlaid, hvalue⟩ :=
    parse_written h.code_ne_zero (Nat.lt_succ_of_le h.length_le) h.size_le
  obtain ⟨tags', hlaid', hvalue'⟩ :=
    parse_written h'.code_ne_zero (Nat.lt_succ_of_le h'.length_le) h'.size_le
  have hinfo := hlaid.ofTags_unplaced_eq hlaid' hsame
  -- The records are equal but for places, so both have a memory map or neither has one.
  have hmap : (ofTags tags).memoryMap.isSome = (ofTags tags').memoryMap.isSome := by
    have hsome := congrArg (fun info => info.memoryMap.isSome) hinfo
    simpa only [unplaced, Option.isSome_map] using hsome
  by_cases hgood : (ofTags tags').memoryMap.isSome
  · rw [if_pos (hmap.trans hgood)] at hvalue
    rw [if_pos hgood] at hvalue'
    refine .inr ⟨_, _, hvalue, hvalue', hinfo, ?_, ?_, ?_⟩
    · rw [← contents_unplaced, hinfo, contents_unplaced]
    · rw [← systemReport_unplaced, hinfo, systemReport_unplaced]
    · rw [← memoryMapReport_unplaced, hinfo, memoryMapReport_unplaced]
  · rw [if_neg (by rwa [hmap])] at hvalue
    rw [if_neg hgood] at hvalue'
    exact .inl ⟨hvalue, hvalue'⟩

/-- A command line, a memory map without entries, and two tags for the firmware tables,
the second of which is refused. -/
def orderlySources : List TagSource :=
  [⟨1, 0, [0x68, 0x69, 0].toByteArray⟩, ⟨2, 0, [24, 0, 0, 0, 0, 0, 0, 0].toByteArray⟩,
    ⟨5, 0, [0, 0xE0, 0, 0, 0, 0, 0, 0].toByteArray⟩, ⟨5, 0, [0, 0, 0].toByteArray⟩]

/-- The same tags with the kinds mixed, between tags that have no slot. -/
def shuffledSources : List TagSource :=
  [⟨0x8001, 7, [1, 2, 3].toByteArray⟩, ⟨5, 0, [0, 0xE0, 0, 0, 0, 0, 0, 0].toByteArray⟩,
    ⟨4, 0, ByteArray.empty⟩, ⟨2, 0, [24, 0, 0, 0, 0, 0, 0, 0].toByteArray⟩,
    ⟨5, 0, [0, 0, 0].toByteArray⟩, ⟨0x0C, 1, [0].toByteArray⟩,
    ⟨1, 0, [0x68, 0x69, 0].toByteArray⟩]

/-- Take `orderlySources` and `shuffledSources`: the same command line, memory map and tables, but
in another order of the kinds and between tags without a slot. Then `parse_reordered` applies: the
records differ, since the tags lie elsewhere, but they say the same. -/
theorem parse_reordered_shuffled :
    RegionWriter.Writable orderlySources ∧ RegionWriter.Writable shuffledSources ∧
      (∀ kind : TagKind, kind.isConsumed = true →
        TagSource.ofKind kind orderlySources = TagSource.ofKind kind shuffledSources) ∧
      let bytes := (orderlySources.foldl RegionWriter.writeTag .empty).closedBytes
      let bytes' := (shuffledSources.foldl RegionWriter.writeTag .empty).closedBytes
      ∃ info info', (parse bytes .standard).value = .ok info ∧
        (parse bytes' .standard).value = .ok info' ∧ info ≠ info' ∧
          info.contents = info'.contents := by
  have horderly : RegionWriter.Writable orderlySources :=
    ⟨by decide, by decide, by decide +kernel⟩
  have hshuffled : RegionWriter.Writable shuffledSources :=
    ⟨by decide, by decide, by decide +kernel⟩
  have hsame (kind : TagKind) (hconsumed : kind.isConsumed = true) :
      TagSource.ofKind kind orderlySources = TagSource.ofKind kind shuffledSources := by
    cases kind <;> first | rfl | cases hconsumed
  refine ⟨horderly, hshuffled, hsame, ?_⟩
  intro bytes bytes'
  -- The two records are told apart by the offsets of their tags, which rules out the first case.
  have hdiffer : (parse bytes .standard).value ≠ (parse bytes' .standard).value := by
    decide +kernel
  rcases parse_reordered horderly hshuffled hsame with
    ⟨hlacks, hlacks'⟩ | ⟨info, info', hvalue, hvalue', -, hcontents, -⟩
  · exact absurd (hlacks.trans hlacks'.symm) hdiffer
  · refine ⟨info, info', hvalue, hvalue', ?_, hcontents⟩
    rintro rfl
    exact hdiffer (hvalue.trans hvalue'.symm)

end BootInfo

end EarlyBoot

import EarlyBoot.Proofs.BootInfo.Written
import EarlyBoot.Proofs.Record.Written

/-!
# `EarlyBoot.Proofs.BootInfo.RoundTrip`: what is written is what is read

A region is written from entries, in any order and any number of each kind, and
parsed back. What is known afterwards is, slot by slot, what the last acceptable
entry for the slot says; entries that a reader refuses leave no trace.

Each slot of what is known looks at the tags of one kind only, so the proof takes
one entry and one slot at a time (`ranges?_of_says` and its siblings), and
`Laid.map_lastAccepted` carries it over to all entries.

Main statements:

* `Laid.map_lastAccepted` : a slot of what is known is what the last acceptable entry says;
* `parse_closedBytes_writeAll` : what is written is what is read.
-/

set_option autoImplicit false

namespace EarlyBoot

/-! ### Entries and slots -/

namespace RegionWriter

namespace Entry

def kind : Entry → TagKind
  | .memoryMap _ _  => .memoryMap
  | .framebuffer _  => .framebuffer
  | .commandLine _  => .commandLine
  | .bootloader _   => .bootloader
  | .acpiRoot _     => .acpiRoot
  | .processors _ _ => .processors
  | .ramdisk _ _    => .ramdisk

def payload : Entry → ByteArray
  | .memoryMap stride ranges   => MemoryMap.written stride ranges
  | .framebuffer mode          => modeBytes mode
  | .commandLine content       => content.toUTF8.push 0
  | .bootloader content        => content.toUTF8.push 0
  | .acpiRoot address          => Bytes.le64 address
  | .processors bootId entries => Processors.written bootId entries
  | .ramdisk start length      => Bytes.le64 start ++ Bytes.le64 length

/-- What the tag of an entry is written from. -/
def source (entry : Entry) : TagSource where
  code := entry.kind.code
  payload := entry.payload

/-- The ranges of a memory map whose distance is not too small. -/
def ranges? : Entry → Option (List MemoryRange)
  | .memoryMap stride ranges =>
      if MemoryRange.encodedSize ≤ stride.toNat then some ranges else none
  | _ => none

/-- The mode of a framebuffer that has pixels. -/
def mode? : Entry → Option ScreenMode
  | .framebuffer mode =>
      if mode.width ≠ 0 ∧ mode.height ≠ 0 ∧ mode.depth ≠ 0 ∧ mode.address ≠ 0 then some mode
      else none
  | _ => none

def commandLine? : Entry → Option ByteArray
  | .commandLine content => some (Contents.textBytes content)
  | _ => none

def bootloader? : Entry → Option ByteArray
  | .bootloader content => some (Contents.textBytes content)
  | _ => none

/-- The address of the root of the firmware tables, unless it is zero. -/
def acpiRoot? : Entry → Option UInt64
  | .acpiRoot address => if address ≠ 0 then some address else none
  | _ => none

/-- The number of processors, the one that the system boots on and all of them,
unless there are none. -/
def processors? : Entry → Option (UInt32 × UInt32 × List Processor)
  | .processors bootId entries =>
      if entries ≠ [] then some (length32 entries.length, bootId, entries) else none
  | _ => none

/-- The start and the length of a ramdisk, unless one of them is zero. -/
def ramdisk? : Entry → Option (UInt64 × UInt64)
  | .ramdisk start length => if start ≠ 0 ∧ length ≠ 0 then some (start, length) else none
  | _ => none

end Entry

end RegionWriter

open RegionWriter (Entry)

/-- What the last acceptable entry for a slot says. -/
def lastOf {α : Type} (slot : Entry → Option α) (entries : List Entry) : Option α :=
  (entries.filterMap slot).getLast?

/-- The contents that entries amount to, slot by slot. -/
def Contents.ofLast (entries : List Entry) : Contents where
  ranges := lastOf Entry.ranges? entries
  mode := lastOf Entry.mode? entries
  commandLine := lastOf Entry.commandLine? entries
  acpiRoot := lastOf Entry.acpiRoot? entries
  processors := lastOf Entry.processors? entries
  ramdisk := lastOf Entry.ramdisk? entries
  bootloader := lastOf Entry.bootloader? entries
  usableMebibytes := ((lastOf Entry.ranges? entries).map Memory.usableMebibytes).getD 0
  processorCount := ((lastOf Entry.processors? entries).map Prod.fst).getD 1

/-! ### The tags of entries -/

namespace RegionWriter

/-- The builder writes an entry by pushing the tag of its source, so the seven entry methods are one
`writeTag` with the source's code and payload. -/
theorem write_eq (w : RegionWriter) (entry : Entry) : w.write entry = w.writeTag entry.source := by
  -- Two kinds of entries are written in a loop, the others in one go.
  cases entry with
  | memoryMap stride ranges =>
      have hjoined := Bytes.foldl_append_eq (strideEntry stride.toNat) ranges ByteArray.empty
      rw [ByteArray.empty_append] at hjoined
      rw [write, memoryMap, memoryMapRaw, hjoined]
      rfl
  | processors bootId processors =>
      rw [write, RegionWriter.processors, Bytes.foldl_append_eq]
      rfl
  | framebuffer mode => rfl
  | commandLine content => rfl
  | bootloader content => rfl
  | acpiRoot address => rfl
  | ramdisk start length => rfl

/-- Entries are written one after the other, as `writeTag` of their sources. -/
theorem writeAll_eq (w : RegionWriter) (entries : List Entry) :
    w.writeAll entries = (entries.map Entry.source).foldl writeTag w := by
  have hwrite : write = fun w entry => w.writeTag entry.source := by
    funext w entry
    exact w.write_eq entry
  rw [writeAll, hwrite, List.foldl_map]

/-- The source of an entry is not that of a closing tag, whose code is zero. -/
theorem Entry.code_source_ne_zero (entry : Entry) : entry.source.code ≠ 0 := by
  cases entry <;> simp [source, kind, TagKind.code]

end RegionWriter

/-! ### Slots of tags -/

namespace RegionWriter.Entry

variable {entry : Entry} {tag : RawTag}

/-- A tag that says the source of an entry is of the kind of the entry. -/
theorem kind_of_says (h : tag.Says entry.source) : tag.kind = entry.kind := by
  rw [h.kind_eq]
  cases entry <;> rfl

/-- The tag of an entry says nothing for the slots of other kinds. -/
theorem accepted?_of_ne {α : Type} {kind : TagKind} {decode : RawTag → Except TagRejection α}
    (h : tag.Says entry.source) (hne : entry.kind ≠ kind) : tag.accepted? kind decode = none := by
  rw [RawTag.accepted?, kind_of_says h, if_neg hne]

/-- The tag of an entry says for the slot of its own kind what `decode` makes of it, if anything. -/
theorem accepted?_of_eq {α : Type} (kind : TagKind) {decode : RawTag → Except TagRejection α}
    (h : tag.Says entry.source) (heq : entry.kind = kind) :
    tag.accepted? kind decode = (decode tag).toOption := by
  rw [RawTag.accepted?, kind_of_says h, if_pos heq]

/-- Take the tag of an entry whose kinds of memory all come from codes. Then `MemoryMap.decode`
reads back the ranges of the entry, or refuses the tag where `Entry.ranges?` has none. -/
theorem ranges?_of_says (h : tag.Says entry.source)
    (hkinds : ∀ stride ranges, entry = .memoryMap stride ranges →
      ∀ range ∈ ranges, ∃ code, range.kind = .ofCode code) :
    (tag.accepted? .memoryMap MemoryMap.decode).map MemoryMap.entries = entry.ranges? := by
  cases entry with
  | memoryMap stride ranges =>
      have hcarries : tag.Carries (MemoryMap.written stride ranges) := h.carries
      rw [accepted?_of_eq .memoryMap h rfl, MemoryMap.decode_carries hcarries, ranges?]
      by_cases hstride : MemoryRange.encodedSize ≤ stride.toNat
      · rw [if_neg (Nat.not_lt.mpr hstride), if_pos hstride]
        exact congrArg some (MemoryMap.entries_carries hcarries hstride (hkinds _ _ rfl))
      · rw [if_pos (Nat.lt_of_not_le hstride), if_neg hstride]
        rfl
  | _ =>
      rw [accepted?_of_ne h (by intro hk; cases hk)]
      rfl

/-- The mode that was written is read back by `Framebuffer.decode`, unless a number in it is zero
that may not be. -/
theorem mode?_of_says (h : tag.Says entry.source) :
    (tag.accepted? .framebuffer Framebuffer.decode).map Framebuffer.toScreenMode =
      entry.mode? := by
  cases entry with
  | framebuffer mode =>
      rw [accepted?_of_eq .framebuffer h rfl, Framebuffer.decode_carries h.carries, mode?]
      -- The decoder refuses the first field that is zero, the slot any of them.
      by_cases hwidth : mode.width = 0
      · rw [if_pos hwidth, if_neg fun hall => hall.1 hwidth]
        rfl
      by_cases hheight : mode.height = 0
      · rw [if_neg hwidth, if_pos hheight, if_neg fun hall => hall.2.1 hheight]
        rfl
      by_cases hdepth : mode.depth = 0
      · rw [if_neg hwidth, if_neg hheight, if_pos hdepth, if_neg fun hall => hall.2.2.1 hdepth]
        rfl
      by_cases haddress : mode.address = 0
      · rw [if_neg hwidth, if_neg hheight, if_neg hdepth, if_pos haddress,
          if_neg fun hall => hall.2.2.2 haddress]
        rfl
      · rw [if_neg hwidth, if_neg hheight, if_neg hdepth, if_neg haddress,
          if_pos ⟨hwidth, hheight, hdepth, haddress⟩]
        rfl
  | _ =>
      rw [accepted?_of_ne h (by intro hk; cases hk)]
      rfl

/-- The command line that was written is read back up to its first NUL byte. -/
theorem commandLine?_of_says (h : tag.Says entry.source) :
    (tag.accepted? .commandLine BootText.decode).map BootText.bytes = entry.commandLine? := by
  cases entry with
  | commandLine content =>
      rw [accepted?_of_eq .commandLine h rfl, BootText.decode_carries h.carries]
      rfl
  | _ =>
      rw [accepted?_of_ne h (by intro hk; cases hk)]
      rfl

/-- The name of the loader that was written is read back up to its first NUL byte. -/
theorem bootloader?_of_says (h : tag.Says entry.source) :
    (tag.accepted? .bootloader BootText.decode).map BootText.bytes = entry.bootloader? := by
  cases entry with
  | bootloader content =>
      rw [accepted?_of_eq .bootloader h rfl, BootText.decode_carries h.carries]
      rfl
  | _ =>
      rw [accepted?_of_ne h (by intro hk; cases hk)]
      rfl

/-- The address that was written is read back by `AcpiRoot.decode`, unless it is zero. -/
theorem acpiRoot?_of_says (h : tag.Says entry.source) :
    (tag.accepted? .acpiRoot AcpiRoot.decode).map AcpiRoot.address = entry.acpiRoot? := by
  cases entry with
  | acpiRoot address =>
      rw [accepted?_of_eq .acpiRoot h rfl, AcpiRoot.decode_carries h.carries, acpiRoot?]
      by_cases haddress : address = 0
      · rw [if_pos haddress, if_neg fun hne => hne haddress]
        rfl
      · rw [if_neg haddress, if_pos haddress]
        rfl
  | _ =>
      rw [accepted?_of_ne h (by intro hk; cases hk)]
      rfl

/-- The processors that were written are read back by `Processors.decode`, unless there are none. -/
theorem processors?_of_says (h : tag.Says entry.source) :
    (tag.accepted? .processors Processors.decode).map (fun p => (p.count, p.bootId, p.entries)) =
      entry.processors? := by
  cases entry with
  | processors bootId processors =>
      have hcarries : tag.Carries (Processors.written bootId processors) := h.carries
      rw [accepted?_of_eq .processors h rfl, Processors.decode_carries hcarries, processors?]
      by_cases hnil : processors = []
      · rw [if_pos hnil, if_neg fun hne => hne hnil]
        rfl
      · rw [if_neg hnil, if_pos hnil]
        show some (length32 processors.length, bootId, Processors.entries _) = _
        rw [Processors.entries_carries hcarries]
  | _ =>
      rw [accepted?_of_ne h (by intro hk; cases hk)]
      rfl

/-- The start and length that were written are read back by `Ramdisk.decode`, unless one is zero. -/
theorem ramdisk?_of_says (h : tag.Says entry.source) :
    (tag.accepted? .ramdisk Ramdisk.decode).map (fun r => (r.start, r.length)) =
      entry.ramdisk? := by
  cases entry with
  | ramdisk start length =>
      rw [accepted?_of_eq .ramdisk h rfl, Ramdisk.decode_carries h.carries, ramdisk?]
      -- The reader refuses a zero address before a zero length; the list asks for neither.
      by_cases hstart : start = 0
      · rw [if_pos hstart, if_neg fun hboth => hboth.1 hstart]
        rfl
      by_cases hlength : length = 0
      · rw [if_neg hstart, if_pos hlength, if_neg fun hboth => hboth.2 hlength]
        rfl
      · rw [if_neg hstart, if_neg hlength, if_pos ⟨hstart, hlength⟩]
        rfl
  | _ =>
      rw [accepted?_of_ne h (by intro hk; cases hk)]
      rfl

end RegionWriter.Entry

/-! ### The round trip -/

namespace BootInfo

/-- Take tags that are laid out from entries. Then the contents of `ofTags` are `Contents.ofLast` of
the entries: each slot holds what its last acceptable entry says. -/
theorem contents_ofTags {entries : List Entry} {offset : Nat} {tags : List RawTag}
    (h : Laid offset (entries.map Entry.source) tags)
    (hkinds : ∀ stride ranges, .memoryMap stride ranges ∈ entries →
      ∀ range ∈ ranges, ∃ code, range.kind = .ofCode code) :
    (ofTags tags).contents = Contents.ofLast entries := by
  have hranges := h.map_lastAccepted fun entry hentry tag htag =>
    Entry.ranges?_of_says htag fun stride ranges heq => hkinds stride ranges (heq ▸ hentry)
  have hmode := h.map_lastAccepted fun entry _ tag htag => Entry.mode?_of_says htag
  have hcommandLine := h.map_lastAccepted fun entry _ tag htag => Entry.commandLine?_of_says htag
  have hacpiRoot := h.map_lastAccepted fun entry _ tag htag => Entry.acpiRoot?_of_says htag
  have hprocessors := h.map_lastAccepted fun entry _ tag htag => Entry.processors?_of_says htag
  have hramdisk := h.map_lastAccepted fun entry _ tag htag => Entry.ramdisk?_of_says htag
  have hbootloader := h.map_lastAccepted fun entry _ tag htag => Entry.bootloader?_of_says htag
  -- The two totals go with the slots that they are taken from.
  have husable : ((ofTags tags).memoryMap.map MemoryMap.usableMebibytes).getD 0 =
      ((lastOf Entry.ranges? entries).map Memory.usableMebibytes).getD 0 := by
    rw [lastOf, ← hranges, Option.map_map]
    rfl
  have hcount : ((ofTags tags).processors.map Processors.count).getD 1 =
      ((lastOf Entry.processors? entries).map Prod.fst).getD 1 := by
    rw [lastOf, ← hprocessors, Option.map_map]
    rfl
  rw [contents, Contents.ofLast, Contents.mk.injEq]
  exact ⟨hranges, hmode, hcommandLine, hacpiRoot, hprocessors, hramdisk, hbootloader, husable,
    hcount⟩

/-- Take at most 999 entries, one of them an acceptable memory map, that make a region of at most 16
MiB. Then `parse` accepts the bytes that `writeAll` writes, and the contents of the record are those
of `Contents.ofLast`: for each slot the last acceptable entry, and nothing if there is none. -/
theorem parse_closedBytes_writeAll {entries : List Entry} (hlength : entries.length ≤ 999)
    (hsize : (RegionWriter.empty.writeAll entries).closedBytes.size ≤ 16 * 1024 * 1024)
    (hkinds : ∀ stride ranges, .memoryMap stride ranges ∈ entries →
      ∀ range ∈ ranges, ∃ code, range.kind = .ofCode code)
    (hmap : ∃ stride ranges, .memoryMap stride ranges ∈ entries ∧
      MemoryRange.encodedSize ≤ stride.toNat) :
    ∃ info, (parse (RegionWriter.empty.writeAll entries).closedBytes .standard).value = .ok info ∧
      info.contents = Contents.ofLast entries := by
  have hopen : ∀ s ∈ entries.map Entry.source, s.code ≠ 0 := by
    intro s hs
    obtain ⟨entry, -, rfl⟩ := List.mem_map.mp hs
    exact entry.code_source_ne_zero
  have hfew : entries.length < Limits.standard.maxTags.toNat := Nat.lt_succ_of_le hlength
  rw [RegionWriter.writeAll_eq] at hsize ⊢
  obtain ⟨tags, htags, hvalue⟩ := parse_written hopen (by rw [List.length_map]; exact hfew) hsize
  have hcontents := contents_ofTags htags hkinds
  -- The one acceptable memory map need not be the last, but then a later one is held.
  have hslot : (ofTags tags).memoryMap.isSome := by
    obtain ⟨stride, ranges, hmem, hstride⟩ := hmap
    have hranges : (ofTags tags).memoryMap.map MemoryMap.entries =
        lastOf Entry.ranges? entries := congrArg Contents.ranges hcontents
    have hfound : Entry.ranges? (.memoryMap stride ranges) = some ranges := if_pos hstride
    have hsome : (lastOf Entry.ranges? entries).isSome := by
      rw [lastOf, List.getLast?_isSome]
      exact List.ne_nil_of_mem (List.mem_filterMap.mpr ⟨_, hmem, hfound⟩)
    rwa [← hranges, Option.isSome_map] at hsome
  rw [if_pos hslot] at hvalue
  exact ⟨ofTags tags, hvalue, hcontents⟩

/-- Entries for several slots, the later ones not always acceptable. -/
def mixedEntries : List Entry :=
  [.memoryMap 32 [⟨0, 0x200000, .usable, 7⟩, ⟨0x200000, 64, .unknown 77, 0⟩],
    .memoryMap 16 [⟨0, 64, .usable, 0⟩],
    .commandLine "quiet",
    .commandLine "a\x00b",
    .ramdisk 4096 512,
    .ramdisk 4096 0,
    .processors 1 [⟨0, ⟨0xF0000001⟩⟩, ⟨1, ⟨3⟩⟩],
    .processors 0 []]

/-- Take `mixedEntries`, where the last memory map, the last ramdisk and the last processors are not
acceptable, and the last command line has a NUL byte inside. Then `parse_closedBytes_writeAll` gives
a record with the earlier map, ramdisk and processors, and with the text in front of the NUL
byte. -/
theorem parse_closedBytes_writeAll_mixed :
    mixedEntries.length ≤ 999 ∧
      (RegionWriter.empty.writeAll mixedEntries).closedBytes.size ≤ 16 * 1024 * 1024 ∧
        ∃ info,
          (parse (RegionWriter.empty.writeAll mixedEntries).closedBytes .standard).value =
              .ok info ∧
            info.contents = {
              ranges := some [⟨0, 0x200000, .usable, 7⟩, ⟨0x200000, 64, .unknown 77, 0⟩]
              commandLine := some [97].toByteArray
              ramdisk := some (4096, 512)
              processors := some (2, 1, [⟨0, ⟨0xF0000001⟩⟩, ⟨1, ⟨3⟩⟩])
              usableMebibytes := 2
              processorCount := 2
            } := by
  have hlength : mixedEntries.length ≤ 999 := by decide
  have hsize : (RegionWriter.empty.writeAll mixedEntries).closedBytes.size ≤ 16 * 1024 * 1024 := by
    decide +kernel
  -- The kinds that occur are named, not computed: the condition is over every code there is.
  have hkinds : ∀ stride ranges, .memoryMap stride ranges ∈ mixedEntries →
      ∀ range ∈ ranges, ∃ code, range.kind = .ofCode code := by
    intro stride ranges hmem range hrange
    simp only [mixedEntries, List.mem_cons, Entry.memoryMap.injEq, reduceCtorEq, List.not_mem_nil,
      or_false] at hmem
    rcases hmem with ⟨-, rfl⟩ | ⟨-, rfl⟩
    · rcases List.mem_cons.mp hrange with rfl | hrest
      · exact ⟨1, rfl⟩
      · rw [List.mem_singleton.mp hrest]
        exact ⟨77, rfl⟩
    · rw [List.mem_singleton.mp hrange]
      exact ⟨1, rfl⟩
  have hmap : ∃ stride ranges, .memoryMap stride ranges ∈ mixedEntries ∧
      MemoryRange.encodedSize ≤ stride.toNat :=
    ⟨32, _, List.mem_cons_self, by decide⟩
  obtain ⟨info, hvalue, hcontents⟩ := parse_closedBytes_writeAll hlength hsize hkinds hmap
  refine ⟨hlength, hsize, info, hvalue, ?_⟩
  rw [hcontents]
  decide

end BootInfo

end EarlyBoot

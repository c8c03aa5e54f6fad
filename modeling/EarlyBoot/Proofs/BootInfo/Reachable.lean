import EarlyBoot.Proofs.BootInfo.Reparse
import EarlyBoot.Proofs.Record.Accepted
import EarlyBoot.Proofs.Tag.Chain

/-!
# `EarlyBoot.Proofs.BootInfo.Reachable`: records that were parsed into

One record may be parsed into many times, from good and from bad inputs. Whatever the
inputs were, all that it holds was decoded from tags of one region, that of the last
input whose header was accepted, and the two totals go with what is held (`Sound`).

An input with a refused header changes neither the record nor that region. Any other
one replaces both, so a single input is all that has to be looked at: what its visited
tags say is sound, because each slot was filled from one of them (`Slot.Backed`).

Main statements:

* `Slot.filled_lastAccepted` : a slot is filled from a tag that the region has;
* `sound_reparse` : parsing into a sound record leaves it sound;
* `sound_reparseAll` : a record is sound however often it was parsed into;
* `Parsed.sound` : so is any other record that was parsed.
-/

set_option autoImplicit false

namespace EarlyBoot

/-! ### Slots that are filled -/

namespace Slot

variable {α : Type}

/-- The record was decoded from a tag of the slot's kind, and the region has that tag. -/
structure Backed (slot : Slot α) (region : Region) (view : α) : Prop where
  kind_eq : (slot.tag view).kind = slot.kind
  decode_eq : slot.decode (slot.tag view) = .ok view
  /-- The tag is as large as the decoder asks for. -/
  least_le : slot.least ≤ (slot.tag view).size.toNat
  /-- The tag is placed like one, lies inside the region, and its bytes are those there. -/
  has : region.Has (slot.tag view)

/-- What the slot holds, if anything, is backed by the region, which then exists. -/
def Filled (slot : Slot α) (region? : Option Region) (held : Option α) : Prop :=
  ∀ view, held = some view → ∃ region, region? = some region ∧ slot.Backed region view

/-- An empty slot is sound without any region. -/
theorem filled_none (slot : Slot α) (region? : Option Region) : slot.Filled region? none := by
  intro view hview
  cases hview

/-- Take tags that the region has. Then what `lastAccepted` makes of them is decoded from a tag of
the right kind inside the region. -/
theorem filled_lastAccepted (slot : Slot α) {region : Region} {tags : List RawTag}
    (htags : ∀ tag ∈ tags, region.Has tag) :
    slot.Filled (some region) (lastAccepted slot.kind slot.decode tags) := by
  intro view hview
  obtain ⟨tag, hmem, hkind, hdecode⟩ := exists_of_lastAccepted hview
  obtain ⟨rfl, hleast⟩ := slot.of_decode hdecode
  exact ⟨region, rfl, hkind, hdecode, hleast, htags _ hmem⟩

end Slot

namespace BootInfo

/-! ### Sound records -/

/-- All that the record holds is backed by one region, and the totals go with it. -/
structure Sound (info : BootInfo) (region? : Option Region) : Prop where
  memoryMap : Slot.memoryMap.Filled region? info.memoryMap
  framebuffer : Slot.framebuffer.Filled region? info.framebuffer
  commandLine : (Slot.text .commandLine).Filled region? info.commandLine
  acpiRoot : Slot.acpiRoot.Filled region? info.acpiRoot
  processors : Slot.processors.Filled region? info.processors
  ramdisk : Slot.ramdisk.Filled region? info.ramdisk
  bootloader : (Slot.text .bootloader).Filled region? info.bootloader
  usableMebibytes_eq :
    info.usableMebibytes = (info.memoryMap.map MemoryMap.usableMebibytes).getD 0
  processorCount_eq : info.processorCount = (info.processors.map Processors.count).getD 1
  processorCount_ne_zero : info.processorCount ≠ 0

/-- The record `unknown`, which nothing was parsed into, is sound without any region. -/
theorem sound_unknown : unknown.Sound none where
  memoryMap := Slot.filled_none _ _
  framebuffer := Slot.filled_none _ _
  commandLine := Slot.filled_none _ _
  acpiRoot := Slot.filled_none _ _
  processors := Slot.filled_none _ _
  ramdisk := Slot.filled_none _ _
  bootloader := Slot.filled_none _ _
  usableMebibytes_eq := rfl
  processorCount_eq := rfl
  processorCount_ne_zero := by decide

/-- Take tags that the region has. Then `ofTags` of them is a sound record: the views lie inside the
region, and the totals are those of the views. -/
theorem sound_ofTags {region : Region} {tags : List RawTag}
    (htags : ∀ tag ∈ tags, region.Has tag) : (ofTags tags).Sound (some region) where
  memoryMap := Slot.memoryMap.filled_lastAccepted htags
  framebuffer := Slot.framebuffer.filled_lastAccepted htags
  commandLine := (Slot.text .commandLine).filled_lastAccepted htags
  acpiRoot := Slot.acpiRoot.filled_lastAccepted htags
  processors := Slot.processors.filled_lastAccepted htags
  ramdisk := Slot.ramdisk.filled_lastAccepted htags
  bootloader := (Slot.text .bootloader).filled_lastAccepted htags
  usableMebibytes_eq := rfl
  processorCount_eq := rfl
  processorCount_ne_zero := by
    show ((lastAccepted .processors Processors.decode tags).map Processors.count).getD 1 ≠ 0
    cases hheld : lastAccepted .processors Processors.decode tags with
    | none => decide
    | some processors =>
        obtain ⟨tag, -, -, hdecode⟩ := exists_of_lastAccepted hheld
        exact (Processors.of_decode hdecode).2

/-- What the visited tags of a region say is sound, since `Region.visited` lists tags of that
region. -/
theorem sound_visited (region : Region) (limits : Limits) :
    (ofTags (region.visited limits)).Sound (some region) := by
  apply sound_ofTags
  intro tag hmem
  have hfront : tag ∈ beforeClosing region.tags := List.mem_of_mem_take hmem
  exact Region.has_of_mem_tags ((List.takeWhile_sublist _).subset hfront)

/-! ### Parsing again and again -/

/-- The record after inputs were parsed into it, one after the other. -/
def reparseAll (known : BootInfo) (inputs : List ByteArray) : BootInfo :=
  inputs.foldl (fun known bytes => (known.reparse bytes).value.2) known

/-- The region of the last input whose header is accepted. -/
def lastRegion? (inputs : List ByteArray) : Option Region :=
  (inputs.filterMap fun bytes => (Region.read bytes .standard).toOption).getLast?

/-- An input that comes first gives way to any later one with an accepted header. -/
theorem lastRegion?_cons (bytes : ByteArray) (inputs : List ByteArray) :
    lastRegion? (bytes :: inputs) =
      (lastRegion? inputs).or (Region.read bytes .standard).toOption := by
  unfold lastRegion?
  cases hread : Region.read bytes .standard with
  | error error =>
      rw [List.filterMap_cons_none (by rw [hread]; rfl)]
      exact (Option.or_none).symm
  | ok region =>
      rw [List.filterMap_cons_some (by rw [hread]; rfl), List.getLast?_cons]
      cases (inputs.filterMap fun bytes => (Region.read bytes .standard).toOption).getLast? with
      | none => rfl
      | some later => rfl

/-- One step keeps the invariant: `reparse` of a sound record is sound. The region behind it is that
of the input, or the one before if the header of the input is refused. -/
theorem sound_reparse {known : BootInfo} {region? : Option Region} (h : known.Sound region?)
    (bytes : ByteArray) :
    (known.reparse bytes).value.2.Sound
      ((Region.read bytes .standard).toOption.or region?) := by
  cases hread : Region.read bytes .standard with
  | error error =>
      rw [reparse_of_error hread]
      exact h
  | ok region =>
      rw [reparse_of_ok hread]
      -- Whatever was known is gone.
      exact sound_visited region .standard

/-- A run keeps the invariant: a record that is sound before stays sound through any list of inputs,
by `sound_reparse` at each of them. -/
theorem Sound.reparseAll {known : BootInfo} {region? : Option Region} (h : known.Sound region?)
    (inputs : List ByteArray) :
    (known.reparseAll inputs).Sound ((lastRegion? inputs).or region?) := by
  -- The record and the region that backs it change together, so both are general.
  induction inputs generalizing known region? with
  | nil => exact h
  | cons bytes inputs ih =>
      have hnext := ih (sound_reparse h bytes)
      rw [← Option.or_assoc, ← lastRegion?_cons] at hnext
      exact hnext

/-- Take a fresh record and parse any inputs into it, one after the other, whether they are accepted
or not. Then the record is sound: every slot was decoded from a tag of its kind that is large enough
and lies inside the region of the last input with an accepted header, the totals go with the memory
map and the processors, and there is at least one processor. -/
theorem sound_reparseAll (inputs : List ByteArray) :
    (unknown.reparseAll inputs).Sound (lastRegion? inputs) := by
  have h := sound_unknown.reparseAll inputs
  rwa [Option.or_none] at h

/-! ### Parsed records -/

/-- The records that there are: one that nothing was parsed into yet, one that a region was
parsed to, and one of these after more was parsed into it. -/
inductive Parsed : BootInfo → Prop where
  | unknown : Parsed unknown
  | region {region : Region} {limits : Limits} {info : BootInfo}
      (h : (parseRegion region limits).value = .ok info) : Parsed info
  | again {known : BootInfo} (h : Parsed known) (bytes : ByteArray) :
      Parsed (known.reparse bytes).value.2

/-- A record that was reached by parsing is sound for some region, or for none. -/
theorem Parsed.sound {info : BootInfo} (h : Parsed info) : ∃ region?, info.Sound region? := by
  induction h with
  | unknown => exact ⟨none, sound_unknown⟩
  | region h =>
      rename_i region limits info
      -- A region that parses has no fatal error, and its record is what its walk visited.
      rw [parseRegion_value_eq_visited] at h
      cases hfatal : fatal? limits (survey region limits) with
      | none =>
          rw [hfatal] at h
          cases h
          exact ⟨some region, sound_visited region limits⟩
      | some error =>
          rw [hfatal] at h
          cases h
  | again h bytes ih =>
      obtain ⟨region?, hsound⟩ := ih
      exact ⟨_, sound_reparse hsound bytes⟩

end BootInfo

end EarlyBoot

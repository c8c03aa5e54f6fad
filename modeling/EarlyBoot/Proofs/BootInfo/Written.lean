import EarlyBoot.Proofs.BootInfo.Outcome
import EarlyBoot.Proofs.Region.Written

/-!
# `EarlyBoot.Proofs.BootInfo.Written`: parsing a region that was written

The tags of a written region are those that were laid, and behind them the closing
one. With no more of them than may be visited, the region is parsed to what they say.
What they say in one slot can be told from what they were written from, one tag at a
time: a slot looks at each tag alone, and keeps the last that is accepted.

Main statements:

* `parse_written` : what a written region is parsed to;
* `Laid.map_lastAccepted` : what the tags say in a slot, from what they were written from.
-/

set_option autoImplicit false

namespace EarlyBoot

/-! ### The tags in front of the closing one -/

namespace Laid

/-- Take tags that are laid out from sources, the last of them closing. Then the tags in front of
the closing one are laid out from the sources in front of it. -/
theorem beforeClosing {sources : List TagSource} (hopen : ∀ s ∈ sources, s.code ≠ 0)
    {last : TagSource} (hlast : last.code = 0) {offset : Nat} {tags : List RawTag}
    (h : Laid offset (sources ++ [last]) tags) :
    Laid offset sources (EarlyBoot.beforeClosing tags) := by
  -- Tags and sources go in step, and no source but the last one closes.
  induction sources generalizing offset tags with
  | nil =>
      cases h with
      | cons _ hmatches hrest =>
          rw [beforeClosing_cons_closing _ (hmatches.kind_eq_closing.mpr hlast)]
          exact .nil
  | cons s sources ih =>
      obtain ⟨hs, hsources⟩ := List.forall_mem_cons.mp hopen
      cases h with
      | cons hat hmatches hrest =>
          rw [beforeClosing_cons _ (mt hmatches.kind_eq_closing.mp hs)]
          exact .cons hat hmatches (ih hsources hrest)

end Laid

/-! ### Slots of tags -/

/-- What a tag says, if it is of the kind and accepted. -/
def RawTag.accepted? {α : Type} (kind : TagKind) (decode : RawTag → Except TagRejection α)
    (tag : RawTag) : Option α :=
  if tag.kind = kind then (decode tag).toOption else none

/-- Take tags that are laid out from items, and suppose that each tag says for a slot what `slot`
says of its item. Then `lastAccepted` of the tags is the last value of `slot` among the items. -/
theorem Laid.map_lastAccepted {ι α β : Type} {source : ι → TagSource} {items : List ι}
    {kind : TagKind} {decode : RawTag → Except TagRejection α} {view : α → β}
    {slot : ι → Option β} {offset : Nat} {tags : List RawTag}
    (h : Laid offset (items.map source) tags)
    (hslot : ∀ a ∈ items, ∀ tag : RawTag, tag.Says (source a) →
      (tag.accepted? kind decode).map view = slot a) :
    (lastAccepted kind decode tags).map view = (items.filterMap slot).getLast? := by
  -- Tags and sources go in step, so the lists of what they say are the same.
  have hlist : tags.filterMap (fun tag => (tag.accepted? kind decode).map view) =
      items.filterMap slot := by
    induction items generalizing offset tags with
    | nil =>
        cases h
        rfl
    | cons a items ih =>
        cases h with
        | cons _ hmatches hrest =>
            have hhead := hslot a List.mem_cons_self _ hmatches
            have htail := ih hrest fun b hb => hslot b (List.mem_cons_of_mem a hb)
            rw [List.filterMap_cons, List.filterMap_cons, hhead, htail]
  have hlast : lastAccepted kind decode tags =
      (tags.filterMap fun tag => tag.accepted? kind decode).getLast? := rfl
  rw [hlast, ← List.getLast?_map, List.map_filterMap, hlist]

/-! ### The outcome -/

/-- Take sources within the standard limits, none of them closing. Then `parse` of the region that
was written from them returns `ofTags` of tags that are laid out from them, if there is a memory
map, and misses the memory map otherwise. -/
theorem BootInfo.parse_written {sources : List TagSource} (hopen : ∀ s ∈ sources, s.code ≠ 0)
    (hlength : sources.length < Limits.standard.maxTags.toNat)
    (hsize : (sources.foldl RegionWriter.writeTag .empty).closedBytes.size ≤
      Limits.standard.maxTotalSize.toNat) :
    ∃ tags, Laid headerSize sources tags ∧
      (parse (sources.foldl RegionWriter.writeTag .empty).closedBytes .standard).value =
        if (ofTags tags).memoryMap.isSome then .ok (ofTags tags) else .error .missingMemoryMap := by
  have hlast : TagSource.closing.code = 0 := rfl
  rw [RegionWriter.closedBytes_foldl] at hsize ⊢
  obtain ⟨region, hread, -, hall⟩ := Region.read_written hopen hlast hsize
  have hfront := hall.beforeClosing hopen hlast
  refine ⟨_, hfront, ?_⟩
  -- The closing tag comes right behind the others, which is in time.
  have hearly : (beforeClosing region.tags).length <
      min Limits.standard.maxTags.toNat region.tags.length := by
    rw [hall.length_eq, hfront.length_eq, List.length_append, List.length_singleton]
    omega
  rw [← parseRegion_value_of_closed hearly, parse, hread]

end EarlyBoot

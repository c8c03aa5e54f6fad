import EarlyBoot.Proofs.BootInfo.Outcome
import EarlyBoot.Proofs.Region.RoundTrip
import EarlyBoot.Proofs.Tag.Chain

/-!
# `EarlyBoot.Proofs.Region.Copied`: writing the tags of a region again

A region may have padding that is not zero, bytes behind its closing tag, a size that
is not aligned and a closing tag that declares fewer bytes than its header takes. None
of that is left when its tags are written into a fresh region: the copy has the same
tags in the same places, says the same, and is its own copy.

A tag that is followed by another one is as large as its header at least, so it says
what it would be written from (`Has.says_ofTag`), and the walk goes on where a writer would
(`laid_of_collect`). Only the closing tag may change, and a survey looks at nothing of
it but its kind. The copy ends where the closing tag does, rounded up; that stays below
the greatest size of a region because that size is a multiple of the alignment.

Main statements:

* `laid_of_collect` : the tags in front of the last one lie as if they had been written;
* `exists_copy` : the copy of a region has its tags, the closing one tidied;
* `copied_agrees` : the copy of a region agrees with it, and is its own copy.
-/

set_option autoImplicit false

namespace EarlyBoot

open TagSource (ofTag span)

/-! ### A tag that was read, as one that was written -/

/-- The payload of a tag is what it declares beyond its header, and nothing if it declares less. -/
theorem RawTag.size_payload (tag : RawTag) :
    tag.payload.size = tag.size.toNat - tagHeaderSize := by
  rw [RawTag.payload, ByteArray.size_extract, Nat.min_self, tag.size_bytes]
  rfl

/-- A tag is written again with its own size, or with that of its header if it declares less. -/
theorem TagSource.length_ofTag (tag : RawTag) :
    (ofTag tag).length = max tagHeaderSize tag.size.toNat := by
  show tagHeaderSize + tag.payload.size = max tagHeaderSize tag.size.toNat
  rw [tag.size_payload]
  omega

/-- A tag that is written from another one declares the same size, or eight if that is smaller. -/
theorem RawTag.Says.size_eq_of_ofTag {tag tag' : RawTag} (h : tag'.Says (ofTag tag)) :
    tag'.size = if tag.size < 8 then 8 else tag.size := by
  apply UInt32.toNat_inj.mp
  rw [h.toNat_size, TagSource.length_ofTag]
  split
  · rename_i hsmall
    exact Nat.max_eq_left (Nat.le_of_lt (UInt32.lt_iff_toNat_lt.mp hsmall))
  · rename_i hlarge
    exact Nat.max_eq_right (UInt32.le_iff_toNat_le.mp (UInt32.not_lt.mp hlarge))

namespace Region

/-- Take a tag of a region that is not smaller than its header. Then it says what `ofTag` writes it
from. -/
theorem Has.says_ofTag {region : Region} {tag : RawTag} (h : region.Has tag)
    (hsize : tagHeaderSize ≤ tag.size.toNat) : tag.Says (ofTag tag) := by
  have hlength : (ofTag tag).length = tag.size.toNat := by
    rw [TagSource.length_ofTag, Nat.max_eq_right hsize]
  have hheader : tag.position.header = (ofTag tag).header := by
    have hkind : TagKind.ofCode tag.kind.code = tag.kind := h.holds.kind_eq
    have hdeclared : (RegionWriter.length32 (ofTag tag).length) = tag.size := by
      apply UInt32.toNat_inj.mp
      rw [hlength, RegionWriter.toNat_length32 tag.size.toNat_lt_size]
    rw [TagSource.header, hdeclared]
    show tag.position.header = ⟨TagKind.ofCode tag.kind.code, tag.flags, tag.size⟩
    rw [hkind]
    rfl
  refine ⟨hheader, ?_⟩
  -- The first bytes of the tag are the header that the region has at its position.
  have hfront : tag.bytes.extract 0 tagHeaderSize = (ofTag tag).header.encode := by
    have hcut : tag.position.offset + tagHeaderSize ≤ tag.position.finish :=
      Nat.add_le_add_left hsize tag.position.offset
    rw [← hheader, ← h.holds.bytes_eq, h.bytes_eq, ByteArray.extract_extract, Nat.add_zero,
      Nat.min_eq_left hcut]
  calc tag.bytes
      = tag.bytes.extract 0 tag.bytes.size := ByteArray.extract_zero_size.symm
    _ = tag.bytes.extract 0 tagHeaderSize ++ tag.bytes.extract tagHeaderSize tag.bytes.size :=
        ByteArray.extract_eq_extract_append_extract _ (Nat.zero_le _) (by rwa [tag.size_bytes])
    _ = (ofTag tag).bytes := by rw [hfront]; rfl

/-- Among the tags of a region only a closing one has the code zero, which closes the copy. -/
theorem Has.code_ofTag_eq_zero {region : Region} {tag : RawTag} (h : region.Has tag) :
    (ofTag tag).code = 0 ↔ tag.kind = .closing := by
  have hkind : TagKind.ofCode tag.kind.code = tag.kind := h.holds.kind_eq
  constructor
  · intro hzero
    rw [← hkind]
    show TagKind.ofCode (ofTag tag).code = .closing
    rw [hzero]
    rfl
  · intro hclosing
    exact congrArg TagKind.code hclosing

/-- Take the tags that a walk hands out, the last of them set apart. Then those in front do not
close, lie as if they had been written from what `ofTag` says of them, and end where the last one
starts. The induction is on the tags in front. -/
theorem laid_of_collect {region : Region} {front : List RawTag} {last : RawTag}
    {current : Option TagPosition} {start n : Nat} (hcurrent : StandsPlaced current)
    (hstart : startBehind? current = some start)
    (h : Iteration.collect TagWalk.next n { region, current } = front ++ [last]) :
    (∀ tag ∈ front, tag.kind ≠ .closing) ∧ Laid start (front.map ofTag) front ∧
      last.position.offset = start + span (front.map ofTag) := by
  -- The first tag is where the walk looks, and the others are a walk from there.
  induction front generalizing current start n with
  | nil =>
      obtain ⟨hnext, -⟩ := collect_eq_cons h
      refine ⟨?_, .nil, offset_of_nextTag hstart hnext⟩
      intro tag hmem
      cases hmem
  | cons tag front ih =>
      have hhas : region.Has tag := has_of_mem_collect hcurrent h tag List.mem_cons_self
      obtain ⟨hnext, -, m, hrest⟩ := collect_eq_cons h
      have hat : tag.position.offset = start := offset_of_nextTag hstart hnext
      -- Some tag comes behind this one, so this one can be followed.
      obtain ⟨next, tags, hcons⟩ : ∃ next tags, front ++ [last] = next :: tags :=
        List.exists_cons_of_ne_nil (by simp)
      obtain ⟨hbehind, -⟩ := collect_eq_cons (hrest.trans hcons)
      have hfollows := follows_of_nextTag hbehind
      have hsaid : tag.Says (ofTag tag) := hhas.says_ofTag hfollows.size_le
      have hstart' : startBehind? (some tag.position) =
          some (start + Bytes.aligned (ofTag tag).length) := by
        have hsize : (ofTag tag).length = tag.position.size.toNat := hsaid.toNat_size.symm
        rw [hsize, ← hat, ← hfollows.offset_eq]
        exact (nextTag_eq_some.mp hbehind).1
      obtain ⟨hopen, hlaid, hlast⟩ := ih hhas.holds.placed.standsPlaced hstart' hrest
      refine ⟨?_, .cons hat hsaid hlaid, ?_⟩
      · exact List.forall_mem_cons.mpr ⟨hfollows.kind_ne, hopen⟩
      · rw [hlast, List.map_cons, TagSource.span_cons, Nat.add_assoc]

/-- In front of the last tag of a region no tag closes, and all of them lie as if they had been
written behind the header. -/
theorem laid_front {region : Region} {front : List RawTag} {last : RawTag}
    (htags : region.tags = front ++ [last]) :
    (∀ tag ∈ front, tag.kind ≠ .closing) ∧ Laid headerSize (front.map ofTag) front ∧
      last.position.offset = headerSize + span (front.map ofTag) := by
  have hstart : startBehind? none = some headerSize := rfl
  exact laid_of_collect standsPlaced_none hstart htags

end Region

/-! ### The copy -/

namespace RegionWriter

/-- The copy of a region is written from what `ofTag` says of its tags. -/
theorem copied_eq (region : Region) :
    copied region = ((region.tags.map ofTag).foldl writeTag empty).bytes := by
  rw [List.foldl_map]
  rfl

end RegionWriter

namespace Region

open RegionWriter (copied)

/-- A region that `read` accepts is no larger than the limits allow. -/
theorem size_le_of_read {bytes : ByteArray} {limits : Limits} {region : Region}
    (h : read bytes limits = .ok region) : region.bytes.size ≤ limits.maxTotalSize.toNat := by
  have hfault := (Header.read_eq_ok.mp (read_eq_ok.mp h).1).2
  rw [region.size_bytes]
  exact UInt32.le_iff_toNat_le.mp (Header.fault?_eq_none.mp hfault).2.2.1

/-- The copy of a region ends where the last tag does, rounded up. So it stays within any bound of
the region that is a multiple of the alignment. -/
theorem size_copied_le {region : Region} {front : List RawTag} {last : RawTag} {bound : Nat}
    (htags : region.tags = front ++ [last]) (hbound : region.bytes.size ≤ bound)
    (haligned : bound % 8 = 0) : (copied region).size ≤ bound := by
  obtain ⟨-, -, hoffset⟩ := laid_front htags
  have hhas : region.Has last := has_of_mem_tags (by rw [htags]; simp)
  have hplaced : last.position.offset % 8 = 0 := hhas.holds.placed.aligned
  -- A closing tag that declares less than its header takes the bytes of the header anyway.
  have hend : last.position.offset + (ofTag last).length ≤ bound := by
    have hheader := hhas.holds.header_le
    have hfinish : last.position.offset + last.size.toNat ≤ region.bytes.size :=
      hhas.holds.finish_le
    rw [TagSource.length_ofTag]
    omega
  calc (copied region).size
      = headerSize + (span (front.map ofTag) + Bytes.aligned (ofTag last).length) := by
        rw [RegionWriter.copied_eq, RegionWriter.size_bytes_foldl, htags, List.map_append,
          TagSource.span_append]
        rfl
    _ = last.position.offset + Bytes.aligned (ofTag last).length := by rw [hoffset, Nat.add_assoc]
    _ = Bytes.aligned (last.position.offset + (ofTag last).length) :=
        (Bytes.aligned_add_of_mod_eq_zero hplaced _).symm
    _ ≤ bound := Bytes.aligned_le_of_mod_eq_zero haligned hend

/-- Take a region whose last tag closes. Then its copy can be read, and the copy has the tags of the
region, but for the closing one, which is only in the same place and written from the same
source. -/
theorem exists_copy {region : Region} {front : List RawTag} {last : RawTag}
    (hmax : region.bytes.size ≤ Limits.standard.maxTotalSize.toNat)
    (htags : region.tags = front ++ [last]) (hclosing : last.kind = .closing) :
    ∃ copy last',
      read (copied region) .standard = .ok copy ∧ copy.bytes = copied region ∧
        copy.tags = front ++ [last'] ∧ last'.position.offset = last.position.offset ∧
          last'.Says (ofTag last) := by
  obtain ⟨hopen, hfront, hoffset⟩ := laid_front htags
  -- Only the last tag closes the copy, as only the last one closed the region.
  have hnonzero : ∀ s ∈ front.map ofTag, s.code ≠ 0 := by
    intro s hs hzero
    obtain ⟨tag, hmem, rfl⟩ := List.mem_map.mp hs
    have hhas : region.Has tag := has_of_mem_tags (by rw [htags]; exact List.mem_append_left _ hmem)
    exact hopen tag hmem (hhas.code_ofTag_eq_zero.mp hzero)
  have hzero : (ofTag last).code = 0 := congrArg TagKind.code hclosing
  -- The copy is no longer than the region, which is within the limits.
  have hsize := size_copied_le htags hmax (by decide)
  rw [RegionWriter.copied_eq, htags, List.map_append, List.map_singleton] at hsize ⊢
  obtain ⟨copy, hread, hbytes, hlaid⟩ := read_written hnonzero hzero hsize
  obtain ⟨front', last', htags', hfront', hoffset', hsaid⟩ := hlaid.concat
  refine ⟨copy, last', hread, hbytes, ?_, ?_, hsaid⟩
  · rw [htags', hfront'.unique hfront]
  · rw [hoffset', hoffset]

end Region

/-! ### What the copy says -/

namespace BootInfo

/-- Of the closing tag that it ends at, a survey sees nothing but the kind. -/
theorem Survey.run_append_closing {last last' : RawTag} (hlast : last.kind = .closing)
    (hlast' : last'.kind = .closing) (survey : Survey) (room : Nat) (front : List RawTag) :
    survey.run room (front ++ [last]) = survey.run room (front ++ [last']) := by
  apply run_congr
  have halike : Alike last last' := by
    refine ⟨hlast.trans hlast'.symm, ?_⟩
    intro hconsumed
    rw [hlast] at hconsumed
    cases hconsumed
  exact List.rel_append (List.forall₂_same.mpr fun tag _ => Alike.refl tag) (.cons halike .nil)

end BootInfo

namespace Region

open RegionWriter (copied)

/-- Take a region whose last tag closes, and write its tags into a fresh region. Then the copy can
be read and is no larger than 16 MiB. It has the same tags at the same offsets, with the same sizes
but for a closing tag smaller than its header; `parse` has the same outcome and log; and copying the
copy gives the copy. -/
theorem copied_agrees {bytes : ByteArray} {region : Region} {last : RawTag}
    (hread : read bytes .standard = .ok region) (hlast : region.tags.getLast? = some last)
    (hclosing : last.kind = .closing) :
    ∃ copy,
      read (copied region) .standard = .ok copy ∧
        copy.bytes = copied region ∧ (copied region).size ≤ 16 * 1024 * 1024 ∧
        copy.tags.map (fun tag => (tag.position.offset, tag.kind, tag.flags, tag.payload)) =
          region.tags.map (fun tag => (tag.position.offset, tag.kind, tag.flags, tag.payload)) ∧
        copy.tags.map RawTag.size = region.tags.map (fun tag =>
          if tag.kind = .closing ∧ tag.size < 8 then 8 else tag.size) ∧
        BootInfo.parse (copied region) .standard = BootInfo.parse bytes .standard ∧
        copied copy = copied region := by
  obtain ⟨front, htags⟩ := List.getLast?_eq_some_iff.mp hlast
  -- Only the last tag may differ, and only in the size that it declares.
  obtain ⟨copy, last', hcopy, hbytes, htags', hoffset, hsaid⟩ :=
    exists_copy (size_le_of_read hread) htags hclosing
  have hsource : ofTag last' = ofTag last := hsaid.ofTag_eq
  have hclosing' : last'.kind = .closing :=
    hsaid.kind_eq_closing.mpr (congrArg TagKind.code hclosing)
  refine ⟨copy, hcopy, hbytes, ?_, ?_, ?_, ?_, ?_⟩
  · rw [← hbytes]
    exact size_le_of_read hcopy
  · have hflags : last'.flags = last.flags := congrArg TagSource.flags hsource
    have hpayload : last'.payload = last.payload := congrArg TagSource.payload hsource
    rw [htags, htags', List.map_append, List.map_append, List.map_singleton, List.map_singleton,
      hoffset, hclosing, hclosing', hflags, hpayload]
  · obtain ⟨hopen, -, -⟩ := laid_front htags
    have hsize : last'.size = if last.kind = .closing ∧ last.size < 8 then 8 else last.size := by
      simp only [hsaid.size_eq_of_ofTag, hclosing, true_and]
    have hfront : front.map RawTag.size = front.map fun tag =>
        if tag.kind = .closing ∧ tag.size < 8 then 8 else tag.size := by
      apply List.map_congr_left
      intro tag hmem
      rw [if_neg fun h => hopen tag hmem h.1]
    rw [htags, htags', List.map_append, List.map_append, List.map_singleton, List.map_singleton,
      hfront, hsize]
  · -- A survey looks at nothing but the kind of the closing tag.
    unfold BootInfo.parse
    rw [hcopy, hread]
    apply BootInfo.parseRegion_congr
    rw [BootInfo.survey_eq_run, BootInfo.survey_eq_run, htags, htags']
    exact BootInfo.Survey.run_append_closing hclosing' hclosing _ _ _
  · rw [RegionWriter.copied_eq, RegionWriter.copied_eq, htags, htags', List.map_append,
      List.map_append, List.map_singleton, List.map_singleton, hsource]

/-- A region of forty-five bytes and two more behind it. Its padding is not zero, and
its closing tag declares three bytes. -/
def shabbyBytes : ByteArray :=
  [0x4B, 0x4F, 0x42, 0x44, 45, 0, 0, 0, 7, 0, 0, 0, 0, 0, 0, 0,
    0x01, 0x80, 5, 0, 11, 0, 0, 0, 1, 2, 3, 0xFF, 0xFF, 0xFF, 0xFF, 0xFF,
    0x00, 0x00, 9, 0, 3, 0, 0, 0, 0xAA, 0xAA, 0xAA, 0xAA, 0xAA, 0xBB, 0xBB].toByteArray

def shabbyRegion : Region where
  header := ⟨regionMagic, 45, 7, 0⟩
  bytes := shabbyBytes.extract 0 45
  size_bytes := by decide
  minTotalSize_le := by decide

/-- Take `shabbyRegion`: a later version, junk in the padding, and a closing tag that declares three
bytes. Then `copied_agrees` applies: its copy has tags of eleven and eight bytes, is parsed alike,
and is its own copy. -/
theorem copied_agrees_shabby :
    read shabbyBytes .standard = .ok shabbyRegion ∧
      ∃ last, shabbyRegion.tags.getLast? = some last ∧ last.kind = .closing ∧
        ∃ copy, read (copied shabbyRegion) .standard = .ok copy ∧
          copy.tags.map RawTag.size = [11, 8] ∧
            BootInfo.parse (copied shabbyRegion) .standard =
                BootInfo.parse shabbyBytes .standard ∧
              copied copy = copied shabbyRegion := by
  have hread : read shabbyBytes .standard = .ok shabbyRegion :=
    read_eq_ok.mpr ⟨Header.read_eq_ok.mpr ⟨by decide, by decide⟩, by decide⟩
  have hkind : shabbyRegion.tags.getLast?.map RawTag.kind = some .closing := by decide
  obtain ⟨last, hlast, hclosing⟩ := Option.map_eq_some_iff.mp hkind
  obtain ⟨copy, hcopy, -, -, -, hsizes, hparse, hagain⟩ := copied_agrees hread hlast hclosing
  refine ⟨hread, last, hlast, hclosing, copy, hcopy, ?_, hparse, hagain⟩
  rw [hsizes]
  decide

end Region

end EarlyBoot

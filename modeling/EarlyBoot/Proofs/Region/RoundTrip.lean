import EarlyBoot.Proofs.Record.Decoding
import Mathlib.Algebra.Ring.Nat

/-!
# `EarlyBoot.Proofs.Region.RoundTrip`: the tags that are written are the tags that are found

A list of tags is written into a fresh region, closed and read back. The walk finds
the same list, and behind it the closing tag that was added. Each tag starts where the
tags in front of it end, their padding included, so the place of a tag is the sum of
what those take (`span`).

A tag that was found says what it was written from: `TagSource.ofTag` takes it back.

Main statements:

* `Laid.map_ofTag`, `Laid.offset_eq` : what tags that were laid say, and where they are;
* `Laid.concat` : the last of such tags, and those in front of it;
* `tags_closedBytes` : the tags that are written are the tags that are found.
-/

set_option autoImplicit false

namespace EarlyBoot

open Bytes (joined)

namespace TagSource

/-- What a tag can be written from again. -/
def ofTag (tag : RawTag) : TagSource where
  code := tag.kind.code
  flags := tag.flags
  payload := tag.payload

/-- How many bytes the tags of `sources` take, padding included. -/
def span (sources : List TagSource) : Nat :=
  (sources.map fun s => Bytes.aligned s.length).sum

/-- The span of some sources is the length of the first, rounded up, and the span of the others. -/
theorem span_cons (s : TagSource) (sources : List TagSource) :
    span (s :: sources) = Bytes.aligned s.length + span sources := by
  rw [span, List.map_cons, List.sum_cons]
  rfl

/-- The span of two lists of sources is the sum of their spans. -/
theorem span_append (front back : List TagSource) :
    span (front ++ back) = span front + span back := by
  rw [span, List.map_append, List.sum_append]
  rfl

/-- The bytes that are written for some sources are as many as their `span`. -/
theorem size_joined_laid (sources : List TagSource) :
    (joined laid sources).size = span sources := by
  induction sources with
  | nil => rfl
  | cons s sources ih => rw [joined, ByteArray.size_append, size_laid, ih, span_cons]

end TagSource

open TagSource (ofTag span)

/-! ### What a tag says -/

namespace RawTag.Says

variable {tag : RawTag} {s : TagSource}

/-- A tag that says a source declares the length of that source. -/
theorem toNat_size (h : tag.Says s) : tag.size.toNat = s.length := by
  rw [← TagSource.size_bytes, ← h.bytes_eq]
  exact tag.size_bytes.symm

/-- A tag that says a source is written again from that source. -/
theorem ofTag_eq (h : tag.Says s) : ofTag tag = s := by
  have hcode : tag.kind.code = s.code := by
    rw [RawTag.kind, TagPosition.kind, h.header_eq]
    exact TagKind.code_ofCode s.code
  have hflags : tag.flags = s.flags := by
    rw [RawTag.flags, h.header_eq]
    rfl
  have hpayload : tag.payload = s.payload := h.carries.payload_eq
  cases s
  simp only [ofTag, hcode, hflags, hpayload]

/-- Two tags that say the same source at the same offset are one. -/
theorem unique {tag' : RawTag} (h : tag.Says s) (h' : tag'.Says s)
    (hoffset : tag.position.offset = tag'.position.offset) : tag = tag' := by
  obtain ⟨⟨offset, header⟩, bytes, _⟩ := tag
  obtain ⟨⟨offset', header'⟩, bytes', _⟩ := tag'
  have hheader : header = header' := h.header_eq.trans h'.header_eq.symm
  have hbytes : bytes = bytes' := h.bytes_eq.trans h'.bytes_eq.symm
  have hat : offset = offset' := hoffset
  subst hheader hbytes hat
  rfl

end RawTag.Says

/-! ### Tags that were laid one behind the other -/

namespace Laid

/-- Tags that are laid out from sources are written again from these sources. -/
theorem map_ofTag {offset : Nat} {sources : List TagSource} {tags : List RawTag}
    (h : Laid offset sources tags) : tags.map ofTag = sources := by
  induction h with
  | nil => rfl
  | cons _ hsaid _ ih => rw [List.map_cons, hsaid.ofTag_eq, ih]

/-- Tags that are laid out from sources declare the lengths of these sources. -/
theorem map_size {offset : Nat} {sources : List TagSource} {tags : List RawTag}
    (h : Laid offset sources tags) :
    tags.map (fun tag => tag.size.toNat) = sources.map TagSource.length := by
  induction h with
  | nil => rfl
  | cons _ hsaid _ ih => rw [List.map_cons, List.map_cons, hsaid.toNat_size, ih]

/-- A tag that is laid out with others starts behind the span of those in front of it. -/
theorem offset_eq {offset : Nat} {sources : List TagSource} {tags : List RawTag}
    (h : Laid offset sources tags) {i : Nat} {tag : RawTag} (htag : tags[i]? = some tag) :
    tag.position.offset = offset + span (sources.take i) := by
  induction h generalizing i with
  | nil => cases htag
  | @cons offset s sources first tags hat _ _ ih =>
      cases i with
      | zero =>
          rw [List.getElem?_cons_zero] at htag
          cases htag
          exact hat
      | succ i =>
          rw [List.getElem?_cons_succ] at htag
          rw [ih htag, List.take_succ_cons, TagSource.span_cons, Nat.add_assoc]

/-- Take tags that are laid out from some sources and a last one. Then the last tag says the last
source, and starts where the others end. -/
theorem concat {sources : List TagSource} {last : TagSource} {offset : Nat} {tags : List RawTag}
    (h : Laid offset (sources ++ [last]) tags) :
    ∃ front tag, tags = front ++ [tag] ∧ Laid offset sources front ∧
      tag.position.offset = offset + span sources ∧ tag.Says last := by
  induction sources generalizing offset tags with
  | nil =>
      cases h with
      | cons hat hsaid hrest =>
          cases hrest
          exact ⟨[], _, rfl, .nil, hat, hsaid⟩
  | cons s sources ih =>
      cases h with
      | @cons _ _ _ first tags hat hsaid hrest =>
          -- The first tag joins the front, and its span comes before theirs.
          obtain ⟨front, tag, rfl, hfront, hlast, hlastSays⟩ := ih hrest
          refine ⟨first :: front, tag, rfl, .cons hat hsaid hfront, ?_, hlastSays⟩
          rw [hlast, TagSource.span_cons, Nat.add_assoc]

/-- The same sources laid out from the same offset on make the same tags. -/
theorem unique {offset : Nat} {sources : List TagSource} {tags tags' : List RawTag}
    (h : Laid offset sources tags) (h' : Laid offset sources tags') : tags = tags' := by
  induction h generalizing tags' with
  | nil =>
      cases h'
      rfl
  | cons hat hsaid _ ih =>
      cases h' with
      | cons hat' hsaid' hrest' =>
          rw [hsaid.unique hsaid' (hat.trans hat'.symm), ih hrest']

end Laid

/-! ### The round trip -/

namespace RegionWriter

/-- A written region takes its header and the span of its sources. -/
theorem size_bytes_foldl (sources : List TagSource) :
    (sources.foldl writeTag empty).bytes.size = headerSize + span sources := by
  rw [foldl_writeTag_empty, size_bytes, TagSource.size_joined_laid]

end RegionWriter

namespace Region

/-- Take sources that do not close, and write them and a closing tag. If the region is at most 16
MiB, it can be read and declares its own size. Its walk hands out the tags that were written, each
with its size and where those in front of it end, then the closing one, and nothing more however
often it is asked. -/
theorem tags_closedBytes {sources : List TagSource} (hopen : ∀ s ∈ sources, s.code ≠ 0)
    (hsize : headerSize + tagHeaderSize + span sources ≤ 16 * 1024 * 1024) :
    ∃ region,
      read (sources.foldl RegionWriter.writeTag .empty).closedBytes .standard = .ok region ∧
        region.header.totalSize.toNat =
          (sources.foldl RegionWriter.writeTag .empty).closedBytes.size ∧
        region.tags.map ofTag = sources ++ [.closing] ∧
        region.tags.map (fun tag => tag.size.toNat) =
          sources.map (fun s => 8 + s.payload.size) ++ [8] ∧
        (∀ i tag, region.tags[i]? = some tag →
          tag.position.offset = 16 + span (sources.take i)) ∧
        ∀ n, sources.length < n → region.firstTags n = region.tags := by
  -- The bound on the sources is the bound on the size of the region.
  have htotal : (sources.foldl RegionWriter.writeTag .empty).closedBytes.size =
      headerSize + (span sources + tagHeaderSize) := by
    rw [RegionWriter.closedBytes_foldl, RegionWriter.size_bytes_foldl, TagSource.span_append]
    rfl
  have hmax : (sources.foldl RegionWriter.writeTag .empty).closedBytes.size ≤
      Limits.standard.maxTotalSize.toNat := by
    show _ ≤ 16 * 1024 * 1024
    omega
  rw [RegionWriter.closedBytes_foldl] at hmax ⊢
  have hzero : TagSource.closing.code = 0 := rfl
  obtain ⟨region, hread, hbytes, hlaid⟩ := read_written hopen hzero hmax
  refine ⟨region, hread, ?_, hlaid.map_ofTag, ?_, ?_, ?_⟩
  · rw [← hbytes, region.size_bytes]
  · rw [hlaid.map_size, List.map_append]
    rfl
  · intro i tag htag
    -- The closing tag, too, starts behind all sources in front of it.
    have hi : i ≤ sources.length := by
      have hlt := (List.getElem?_eq_some_iff.mp htag).1
      rw [hlaid.length_eq, List.length_append] at hlt
      exact Nat.le_of_lt_succ hlt
    rw [hlaid.offset_eq htag, List.take_append_of_le_length hi]
    rfl
  · intro n hn
    have hlength : region.tags.length ≤ n := by
      rw [hlaid.length_eq, List.length_append]
      exact hn
    rw [region.firstTags_eq_take, List.take_of_length_le hlength]

/-- Three tags, the first of which carries the bytes of a closing tag. -/
def disguisedSources : List TagSource :=
  [⟨0x8001, 3, [0, 0, 0, 0, 8, 0, 0, 0].toByteArray⟩, ⟨2, 0, [7].toByteArray⟩,
    ⟨0xFFFF, 9, ByteArray.empty⟩]

/-- Take `disguisedSources`, whose first payload looks like a closing tag. Then `tags_closedBytes`
applies: all three tags are handed out, and the real closing tag is the fourth, at offset 56. -/
theorem tags_closedBytes_disguised :
    (∀ s ∈ disguisedSources, s.code ≠ 0) ∧
      headerSize + tagHeaderSize + span disguisedSources ≤ 16 * 1024 * 1024 ∧
        ∃ region,
          read (disguisedSources.foldl RegionWriter.writeTag .empty).closedBytes .standard =
              .ok region ∧
            region.tags.map ofTag = disguisedSources ++ [.closing] ∧
              ∀ tag, region.tags[3]? = some tag → tag.position.offset = 56 := by
  have hopen : ∀ s ∈ disguisedSources, s.code ≠ 0 := by decide
  have hsize : headerSize + tagHeaderSize + span disguisedSources ≤ 16 * 1024 * 1024 := by decide
  obtain ⟨region, hread, -, htags, -, hoffset, -⟩ := tags_closedBytes hopen hsize
  exact ⟨hopen, hsize, region, hread, htags, hoffset 3⟩

end Region

end EarlyBoot

import EarlyBoot.Proofs.Bytes.Joined
import EarlyBoot.Proofs.Tag.Cursor
import EarlyBoot.Proofs.Tag.Walk
import EarlyBoot.Region.Writer

/-!
# `EarlyBoot.Proofs.Region.Written`: reading a region that was written

A writer pads all that it has written so far, a reader rounds up the size of each
tag by itself. They agree because what is in front of a tag is always a multiple
of the alignment long, so a writer that has started like that puts each tag down
as if it stood alone (`laid`). A reader that stands where the first of such tags
starts finds them all, one after the other, up to the closing one.

The bytes of a payload may look like anything, tag headers included: nothing is
read at an offset that is not the start of a tag.

Main statements:

* `foldl_writeTag` : a writer lays its tags one behind the other;
* `laid_collect` : a walk finds the tags that were laid;
* `read_written` : a written region is read, and has the tags that were written.
-/

set_option autoImplicit false

namespace EarlyBoot

open Bytes (joined)

/-- A length that fits in 32 bits is declared as it is. -/
theorem RegionWriter.toNat_length32 {n : Nat} (h : n < UInt32.size) : (length32 n).toNat = n := by
  rw [length32, Nat.min_eq_left (by omega), UInt32.toNat_ofNat_of_lt' h]

/-- Up to the standard bound on the size of a region, sizes can be rounded up in 32 bits. -/
theorem maxTotalSize_lt : Limits.standard.maxTotalSize.toNat + 7 < UInt32.size := by decide

/-! ### One tag -/

/-- What a tag is written from. -/
structure TagSource where
  code : UInt16
  flags : UInt16 := 0
  payload : ByteArray

namespace TagSource

/-- The closing tag that a writer adds. -/
def closing : TagSource where
  code := TagKind.closing.code
  payload := ByteArray.empty

def length (s : TagSource) : Nat :=
  tagHeaderSize + s.payload.size

def header (s : TagSource) : TagHeader where
  kind := .ofCode s.code
  flags := s.flags
  size := RegionWriter.length32 s.length

def bytes (s : TagSource) : ByteArray :=
  s.header.encode ++ s.payload

/-- The bytes of the tag, and zeros up to where the next one can start. -/
def laid (s : TagSource) : ByteArray :=
  RegionWriter.padded s.bytes

/-- The bytes that are laid for a source are those of its tag and zeros up to the alignment. -/
theorem laid_eq (s : TagSource) :
    s.laid = s.bytes ++ Bytes.filled (Bytes.aligned s.bytes.size - s.bytes.size) 0 := rfl

/-- The header of a source takes `tagHeaderSize` bytes. -/
@[simp]
theorem size_encode_header (s : TagSource) : s.header.encode.size = tagHeaderSize := by
  simp [TagHeader.encode, tagHeaderSize]

/-- The bytes of a source are as many as its length says. -/
theorem size_bytes (s : TagSource) : s.bytes.size = s.length := by
  rw [bytes, ByteArray.size_append, size_encode_header, length]

/-- What is laid for a source takes its length, rounded up. -/
theorem size_laid (s : TagSource) : s.laid.size = Bytes.aligned s.length := by
  rw [laid, RegionWriter.size_padded, size_bytes]

/-- A source whose length fits in 32 bits declares that length. -/
theorem toNat_size {s : TagSource} (h : s.length < UInt32.size) : s.header.size.toNat = s.length :=
  RegionWriter.toNat_length32 h

/-- The tag of a source is closing exactly if the code of the source is zero. -/
theorem header_kind_eq_closing {s : TagSource} : s.header.kind = .closing ↔ s.code = 0 := by
  constructor
  · intro h
    have hcode : (TagKind.ofCode s.code).code = TagKind.closing.code := congrArg TagKind.code h
    rwa [TagKind.code_ofCode] at hcode
  · intro h
    show TagKind.ofCode s.code = .closing
    rw [h]
    rfl

end TagSource

/-! ### Writing tags -/

namespace RegionWriter

def writeTag (w : RegionWriter) (s : TagSource) : RegionWriter :=
  w.rawTag s.code s.flags s.payload

/-- Closing a region is writing one more tag, the closing one. -/
theorem close_eq (w : RegionWriter) : w.close = w.writeTag .closing := rfl

/-- Behind a string that is aligned, padding depends on what is appended only. -/
theorem padded_append {a : ByteArray} (h : a.size % 8 = 0) (b : ByteArray) :
    padded (a ++ b) = a ++ padded b := by
  have hgap : Bytes.aligned (a ++ b).size - (a ++ b).size = Bytes.aligned b.size - b.size := by
    rw [ByteArray.size_append, Bytes.aligned_add_of_mod_eq_zero h]
    omega
  rw [padded, padded, hgap, ByteArray.append_assoc]

/-- A writer that is aligned puts a tag down as if the tag stood alone. -/
theorem writeTag_eq {w : RegionWriter} (h : w.tags.size % 8 = 0) (s : TagSource) :
    w.writeTag s = { w with tags := w.tags ++ s.laid } := by
  have hheader : Bytes.le16 s.code ++ Bytes.le16 s.flags ++
      Bytes.le32 (length32 (tagHeaderSize + s.payload.size)) = s.header.encode := by
    rw [TagHeader.encode, TagSource.header, TagKind.code_ofCode, TagSource.length]
  rw [writeTag, rawTag, push, hheader, ByteArray.append_assoc, padded_append h, TagSource.laid,
    TagSource.bytes]

/-- A writer that is aligned lays its tags one behind the other. The induction is on the sources,
and `writeTag_eq` keeps the writer aligned. -/
theorem foldl_writeTag {w : RegionWriter} (h : w.tags.size % 8 = 0) (sources : List TagSource) :
    sources.foldl writeTag w = { w with tags := w.tags ++ joined TagSource.laid sources } := by
  induction sources generalizing w with
  | nil => rw [List.foldl_nil, joined, ByteArray.append_empty]
  | cons s sources ih =>
      -- Padding leaves the writer aligned again, which is what the induction asks for.
      have haligned : (w.tags ++ s.laid).size % 8 = 0 := by
        have hlaid := Bytes.aligned_mod s.length
        rw [ByteArray.size_append, TagSource.size_laid]
        omega
      rw [List.foldl_cons, writeTag_eq h, ih haligned, joined, ByteArray.append_assoc]

/-- The numbers at the start of a written region are those of its writer. -/
theorem fields?_bytes (w : RegionWriter) :
    Header.fields? w.bytes = some {
      magic := w.magic
      totalSize := w.totalSize?.getD (length32 (headerSize + w.tags.size))
      version := w.version
      reserved := w.reserved
    } := by
  simp [Header.fields?, bytes, ByteArray.append_assoc, Bytes.uint32?_append_right]

/-- A writer that starts anew lays its tags behind the header. -/
theorem foldl_writeTag_empty (sources : List TagSource) :
    sources.foldl writeTag empty = { tags := joined TagSource.laid sources } := by
  rw [foldl_writeTag rfl]
  show ({ tags := ByteArray.empty ++ joined TagSource.laid sources } : RegionWriter) = _
  rw [ByteArray.empty_append]

/-- A region that is closed at the end is one with the closing tag as its last source. -/
theorem closedBytes_foldl (sources : List TagSource) :
    (sources.foldl writeTag empty).closedBytes =
      ((sources ++ [TagSource.closing]).foldl writeTag empty).bytes := by
  rw [closedBytes, close_eq, List.foldl_append]
  rfl

/-- A written region with room for a tag can be read, unless it is too large. -/
theorem read_bytes {tags : ByteArray} (hmin : tagHeaderSize ≤ tags.size)
    (hmax : headerSize + tags.size ≤ Limits.standard.maxTotalSize.toNat) :
    ∃ region, Region.read (bytes { tags }) .standard = .ok region ∧
      region.bytes = bytes { tags } := by
  have hbound := maxTotalSize_lt
  have htotal : (length32 (headerSize + tags.size)).toNat = headerSize + tags.size :=
    toNat_length32 (by omega)
  have hsize : (bytes { tags }).size = headerSize + tags.size := size_bytes _
  -- Of what is checked of a header, only the sizes depend on the tags.
  have hread : Header.read (bytes { tags }) .standard =
      .ok ⟨regionMagic, length32 (headerSize + tags.size), 1, 0⟩ := by
    refine Header.read_eq_ok.mpr ⟨fields?_bytes _, Header.fault?_eq_none.mpr ?_⟩
    refine ⟨rfl, ?_, ?_, UInt32.le_refl _, rfl, ?_⟩
    · show headerSize + tagHeaderSize ≤ (length32 (headerSize + tags.size)).toNat
      omega
    · rw [UInt32.le_iff_toNat_le, htotal]
      exact hmax
    · show (length32 (headerSize + tags.size)).toNat ≤ (bytes { tags }).size
      exact Nat.le_of_eq (htotal.trans hsize.symm)
  have hall : (bytes { tags }).extract 0 (length32 (headerSize + tags.size)).toNat =
      bytes { tags } := by
    rw [htotal, ← hsize, ByteArray.extract_zero_size]
  refine ⟨{
    header := ⟨regionMagic, length32 (headerSize + tags.size), 1, 0⟩
    bytes := bytes { tags }
    size_bytes := by rw [hsize, htotal]
    minTotalSize_le := by rw [hsize]; exact Nat.add_le_add_left hmin headerSize
  }, Region.read_eq_ok.mpr ⟨hread, hall.symm⟩, rfl⟩

end RegionWriter

/-! ### Reading tags -/

/-- The tag is the one that was written from `s`, wherever it is. -/
structure RawTag.Says (tag : RawTag) (s : TagSource) : Prop where
  header_eq : tag.position.header = s.header
  bytes_eq : tag.bytes = s.bytes

/-- A tag is of the kind of the code that it was written with. -/
theorem RawTag.Says.kind_eq {tag : RawTag} {s : TagSource} (h : tag.Says s) :
    tag.kind = .ofCode s.code :=
  congrArg TagHeader.kind h.header_eq

/-- A tag is closing exactly if it was written with the code zero. -/
theorem RawTag.Says.kind_eq_closing {tag : RawTag} {s : TagSource} (h : tag.Says s) :
    tag.kind = .closing ↔ s.code = 0 := by
  rw [RawTag.kind, TagPosition.kind, h.header_eq]
  exact TagSource.header_kind_eq_closing

/-- `tags` are the tags of `sources`, laid one behind the other from `offset` on. -/
inductive Laid : (offset : Nat) → List TagSource → List RawTag → Prop where
  | nil {offset : Nat} : Laid offset [] []
  | cons {offset : Nat} {s : TagSource} {sources : List TagSource} {tag : RawTag}
      {tags : List RawTag} :
      tag.position.offset = offset → tag.Says s →
      Laid (offset + Bytes.aligned s.length) sources tags →
      Laid offset (s :: sources) (tag :: tags)

/-- There are as many tags as the sources that they are laid out from. -/
theorem Laid.length_eq {offset : Nat} {sources : List TagSource} {tags : List RawTag}
    (h : Laid offset sources tags) : tags.length = sources.length := by
  induction h with
  | nil => rfl
  | cons _ _ _ ih => rw [List.length_cons, List.length_cons, ih]

namespace Region

/-- Take a region with the bytes of a source somewhere. Then there is a position at that offset with
the header of the source, and a tag that says the source. -/
theorem tag_of_bytes {region : Region} {s : TagSource} {front back : ByteArray}
    (h : region.bytes = front ++ (s.bytes ++ back)) :
    region.positionAt? front.size = some ⟨front.size, s.header⟩ ∧
      ∃ tag, region.tag? ⟨front.size, s.header⟩ = some tag ∧
        tag.position.offset = front.size ∧ tag.Says s := by
  have hsize : region.bytes.size = front.size + (s.length + back.size) := by
    rw [h, ByteArray.size_append, ByteArray.size_append, TagSource.size_bytes]
  -- The tag is part of a region, whose size was declared in 32 bits.
  have hfit : s.length < UInt32.size := by
    have hlt := region.header.totalSize.toNat_lt_size
    rw [← region.size_bytes] at hlt
    omega
  have hlength : tagHeaderSize ≤ s.length := Nat.le_add_right _ _
  have hfinish : TagPosition.finish ⟨front.size, s.header⟩ = front.size + s.length := by
    rw [TagPosition.finish, TagSource.toNat_size hfit]
  have hle : TagPosition.finish ⟨front.size, s.header⟩ ≤ region.bytes.size := by omega
  have hread : TagHeader.read? region.bytes front.size = some s.header := by
    rw [TagHeader.read?_eq_some]
    refine ⟨by omega, ?_, ?_⟩
    · show TagKind.ofCode (TagKind.ofCode s.code).code = TagKind.ofCode s.code
      rw [TagKind.code_ofCode]
    · -- Only the first part of the tag is cut out, so its payload counts as what follows.
      have hcut := Bytes.extract_append_middle front s.header.encode (s.payload ++ back)
      rwa [TagSource.size_encode_header, ← ByteArray.append_assoc (a := s.header.encode),
        ← TagSource.bytes, ← h] at hcut
  refine ⟨positionAt?_eq_some.mpr ⟨rfl, hread, hle⟩, ?_⟩
  have hbytes : region.bytes.extract front.size (TagPosition.finish ⟨front.size, s.header⟩) =
      s.bytes := by
    rw [hfinish, h, ← TagSource.size_bytes, Bytes.extract_append_middle]
  exact ⟨_, dif_pos hle, rfl, rfl, hbytes⟩

/-- Behind a tag that does not close, a reader goes on where the writer went on: at the length of
its source, rounded up. -/
theorem following?_eq_aligned {s : TagSource} (hs : s.code ≠ 0)
    (hfit : s.length + 7 < UInt32.size) (offset : Nat) :
    TagPosition.following? ⟨offset, s.header⟩ = some (offset + Bytes.aligned s.length) := by
  have hsize : s.header.size.toNat = s.length := TagSource.toNat_size (by omega)
  refine TagPosition.following?_eq_some.mpr ⟨?_, ?_, ?_, ?_⟩
  · exact fun hk => hs (TagSource.header_kind_eq_closing.mp hk)
  · show tagHeaderSize ≤ s.header.size.toNat
    rw [hsize]
    exact Nat.le_add_right _ _
  · show s.header.size.toNat + 7 < UInt32.size
    rwa [hsize]
  · show offset + Bytes.aligned s.length = offset + Bytes.aligned s.header.size.toNat
    rw [hsize]

/-- Take a walk that stands in front of tags that were laid from sources, the last of them closing.
Then it hands out all of these tags, and ends behind the closing one. The induction is on the
sources, with `tag_of_bytes` and `following?_eq_aligned` for one step. -/
theorem laid_collect {region : Region} (hsize : region.bytes.size + 7 < UInt32.size)
    {last : TagSource} (hlast : last.code = 0) {sources : List TagSource}
    (hopen : ∀ s ∈ sources, s.code ≠ 0) {front : ByteArray}
    (hbytes : region.bytes = front ++ joined TagSource.laid (sources ++ [last]))
    {current : Option TagPosition} (hstart : startBehind? current = some front.size)
    {n : Nat} (hn : sources.length < n) :
    Laid front.size (sources ++ [last]) (Iteration.collect TagWalk.next n { region, current }) := by
  -- The tags that the walk has passed move into `front`, padding included.
  induction sources generalizing front current n with
  | nil =>
      -- Only the closing tag is left, and nothing follows it.
      obtain ⟨n, rfl⟩ := Nat.exists_eq_add_one_of_ne_zero (Nat.ne_of_gt hn)
      rw [List.nil_append, joined, joined, ByteArray.append_empty, TagSource.laid_eq] at hbytes
      obtain ⟨hposition, tag, htag, hat, hmatches⟩ := tag_of_bytes hbytes
      have hnext : region.nextTag current = some ⟨front.size, last.header⟩ := by
        rw [nextTag_eq_bind, hstart, Option.bind_some, hposition]
      have hend : region.nextTag (some ⟨front.size, last.header⟩) = none := by
        have hclosing : TagPosition.kind ⟨front.size, last.header⟩ = .closing :=
          TagSource.header_kind_eq_closing.mpr hlast
        simp [nextTag, TagPosition.following?, hclosing]
      rw [collect_next, positionsFrom_of_some hnext, positionsFrom_of_none hend,
        List.filterMap_cons_some htag]
      exact .cons hat hmatches .nil
  | cons s sources ih =>
      obtain ⟨n, rfl⟩ := Nat.exists_eq_add_one_of_ne_zero (Nat.ne_of_gt (Nat.zero_lt_of_lt hn))
      obtain ⟨hs, hrest⟩ := List.forall_mem_cons.mp hopen
      have hbehind : region.bytes =
          (front ++ s.laid) ++ joined TagSource.laid (sources ++ [last]) := by
        rw [hbytes, List.cons_append, joined, ByteArray.append_assoc]
      have hfront : (front ++ s.laid).size = front.size + Bytes.aligned s.length := by
        rw [ByteArray.size_append, TagSource.size_laid]
      -- The tag is where the walk looks for it; its padding belongs to what comes behind.
      have hlaid := hbehind
      rw [TagSource.laid_eq, ByteArray.append_assoc, ByteArray.append_assoc] at hlaid
      obtain ⟨hposition, tag, htag, hat, hmatches⟩ := tag_of_bytes hlaid
      have hnext : region.nextTag current = some ⟨front.size, s.header⟩ := by
        rw [nextTag_eq_bind, hstart, Option.bind_some, hposition]
      have hfit : s.length + 7 < UInt32.size := by
        have hle := Bytes.le_aligned s.length
        rw [hbehind, ByteArray.size_append, hfront] at hsize
        omega
      -- The padding ends where the walk looks for the next tag.
      have hfollowing : startBehind? (some ⟨front.size, s.header⟩) =
          some (front ++ s.laid).size := by
        rw [hfront]
        exact following?_eq_aligned hs hfit front.size
      have htail := ih hrest hbehind hfollowing (n := n) (Nat.lt_of_succ_lt_succ hn)
      rw [hfront, collect_next] at htail
      rw [collect_next, positionsFrom_of_some hnext, List.filterMap_cons_some htag]
      exact .cons hat hmatches htail

/-- Each source takes at least the eight bytes of a tag header. -/
theorem length_le_size_laid (sources : List TagSource) :
    tagHeaderSize * sources.length ≤ (joined TagSource.laid sources).size := by
  induction sources with
  | nil => exact Nat.zero_le _
  | cons s sources ih =>
      have hlaid : tagHeaderSize ≤ s.laid.size := by
        rw [TagSource.size_laid]
        exact Nat.le_trans (Nat.le_add_right _ _) (Bytes.le_aligned s.length)
      rw [joined, ByteArray.size_append, List.length_cons, Nat.mul_succ]
      omega

/-- Take sources of which only the last one closes. If their region is not too large, it can be
read, and its tags are laid out from the sources. -/
theorem read_written {sources : List TagSource} (hopen : ∀ s ∈ sources, s.code ≠ 0)
    {last : TagSource} (hlast : last.code = 0)
    (hsize : ((sources ++ [last]).foldl RegionWriter.writeTag .empty).bytes.size ≤
      Limits.standard.maxTotalSize.toNat) :
    ∃ region,
      read ((sources ++ [last]).foldl RegionWriter.writeTag .empty).bytes .standard = .ok region ∧
        region.bytes = ((sources ++ [last]).foldl RegionWriter.writeTag .empty).bytes ∧
          Laid headerSize (sources ++ [last]) region.tags := by
  have hroom := length_le_size_laid (sources ++ [last])
  have hbound := maxTotalSize_lt
  rw [List.length_append, List.length_singleton, Nat.mul_add, Nat.mul_one] at hroom
  rw [RegionWriter.foldl_writeTag_empty] at hsize ⊢
  generalize hlaid : joined TagSource.laid (sources ++ [last]) = tags at hroom hsize ⊢
  rw [RegionWriter.size_bytes] at hsize
  change headerSize + tags.size ≤ _ at hsize
  obtain ⟨region, hread, hbytes⟩ := RegionWriter.read_bytes (by omega) hsize
  have htotal : region.bytes.size = headerSize + tags.size := by
    rw [hbytes, RegionWriter.size_bytes]
  refine ⟨region, hread, hbytes, ?_⟩
  -- The four numbers of the header are what stands in front of the first tag.
  have hfront : region.bytes = (Bytes.le32 regionMagic ++
      Bytes.le32 (RegionWriter.length32 (headerSize + tags.size)) ++ Bytes.le32 1 ++
        Bytes.le32 0) ++ joined TagSource.laid (sources ++ [last]) := by
    rw [hbytes, hlaid]
    rfl
  -- Each tag takes room for a header, so as many steps as there is room for find all.
  have hroom' : sources.length < region.tagRoom := by
    rw [tagRoom, htotal, Nat.add_sub_cancel_left]
    simp only [tagHeaderSize] at hroom ⊢
    omega
  exact laid_collect (by omega) hlast hopen hfront rfl hroom'

end Region

end EarlyBoot

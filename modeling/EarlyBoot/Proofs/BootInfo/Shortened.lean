import EarlyBoot.Proofs.BootInfo.Outcome
import EarlyBoot.Proofs.Bytes.Stretch
import EarlyBoot.Proofs.Region.Prefix
import EarlyBoot.Proofs.Tag.Chain
import Mathlib.Data.List.TakeWhile

/-!
# `EarlyBoot.Proofs.BootInfo.Shortened`: a region that ends earlier

The size in the header of a region may be set to a smaller one, wherever that cuts the
tags: between two of them, in a tag header, in a payload, in the padding or in the closing
tag. The tags of the shortened region are those of the longer one that still fit, up to
the first that does not. A tag fits if its header and all bytes that it declares do; the
padding behind it need not.

Both regions hold the same bytes behind the header as far as the shorter one goes, so at
each place the cursor finds the same position in both, or one that is cut off
(`positionAt?_of_shortens`). Tags do not overlap, and only the last one may be closing
(`pairwise_tags`). So the closing tag is the first to go, and as long as it fits nothing
is lost.

Main statements:

* `tags_of_shortens` : the tags of a shortened region are the first ones that fit;
* `pairwise_tags` : tags lie one behind the other, and the closing one last;
* `parse_withTotalSize` : what another declared size changes.
-/

set_option autoImplicit false

namespace EarlyBoot

/-! ### Another declared size -/

namespace Header

/-- The bytes with the size that is declared in their header set to `size`. -/
def withTotalSize (bytes : ByteArray) (size : UInt32) : ByteArray :=
  Bytes.splice bytes 4 (Bytes.le32 size)

/-- Take bytes whose header is read after `withTotalSize`. Then they have room for the size that was
set. -/
theorem fits_of_read {bytes : ByteArray} {size : UInt32} {limits : Limits} {header : Header}
    (h : read (withTotalSize bytes size) limits = .ok header) :
    4 + (Bytes.le32 size).size ≤ bytes.size := by
  have hroom : headerSize ≤ (withTotalSize bytes size).size := by
    have hsome := fields?_isSome (withTotalSize bytes size)
    rw [(read_eq_ok.mp h).1] at hsome
    simpa using hsome.symm
  -- A size that was written past the end would leave no room behind it.
  rw [withTotalSize, ← ByteArray.size_data, Bytes.splice_data] at hroom
  simp only [headerSize, Array.size_append, Array.size_extract, ByteArray.size_data,
    Bytes.size_le32] at hroom ⊢
  omega

/-- The size that `withTotalSize` set is the one that `Header.read` finds. -/
theorem totalSize_of_read {bytes : ByteArray} {size : UInt32} {limits : Limits} {header : Header}
    (h : read (withTotalSize bytes size) limits = .ok header) : header.totalSize = size := by
  have hfit := fits_of_read h
  have hset : Bytes.uint32? (withTotalSize bytes size) 4 = some size := by
    have hcut := Bytes.extract_splice hfit (Nat.le_of_eq (Nat.zero_add (Bytes.le32 size).size))
    rw [Nat.add_zero, Nat.zero_add, ByteArray.extract_zero_size, Bytes.size_le32] at hcut
    rw [Bytes.size_le32] at hfit
    refine Bytes.uint32?_eq_some.mpr ⟨?_, hcut⟩
    rw [withTotalSize, Bytes.size_splice (by rwa [Bytes.size_le32])]
    exact hfit
  rw [uint32?_of_fields? (read_eq_ok.mp h).1, Option.some.injEq] at hset
  exact hset

end Header

/-- The region holds the same bytes behind the header as a longer one, up to its own end. -/
structure Region.Shortens (region longer : Region) : Prop where
  size_le : region.bytes.size ≤ longer.bytes.size
  getElem?_eq : ∀ i, headerSize ≤ i → i < region.bytes.size → region.bytes[i]? = longer.bytes[i]?

namespace Region

/-- A region that is read after `withTotalSize` has the size that was set, and behind its header it
has the bytes that were given. -/
theorem of_read_withTotalSize {bytes : ByteArray} {size : UInt32} {limits : Limits}
    {region : Region} (h : read (Header.withTotalSize bytes size) limits = .ok region) :
    region.bytes.size = size.toNat ∧
      ∀ i, headerSize ≤ i → i < region.bytes.size → region.bytes[i]? = bytes[i]? := by
  obtain ⟨hheader, hbytes⟩ := read_eq_ok.mp h
  have hsize : region.bytes.size = size.toNat := by
    rw [region.size_bytes, Header.totalSize_of_read hheader]
  refine ⟨hsize, ?_⟩
  intro i hle hlt
  -- The total size is written into the header, which ends before byte `i`.
  have hbehind : ¬ (4 ≤ i ∧ i < 4 + (Bytes.le32 size).size) := by
    simp only [headerSize] at hle
    rw [Bytes.size_le32]
    omega
  rw [hbytes, ← region.size_bytes, Bytes.getElem?_extract_zero, if_pos hlt, Header.withTotalSize,
    Bytes.getElem?_splice (Header.fits_of_read hheader), if_neg hbehind]

/-- Take two sizes that both leave an accepted header. Then the region with the smaller one shortens
that with the greater one. -/
theorem shortens_of_read {bytes : ByteArray} {size size' : UInt32} {limits : Limits}
    {region longer : Region} (hle : size ≤ size')
    (hread : read (Header.withTotalSize bytes size) limits = .ok region)
    (hread' : read (Header.withTotalSize bytes size') limits = .ok longer) :
    region.Shortens longer := by
  obtain ⟨hsize, hbytes⟩ := of_read_withTotalSize hread
  obtain ⟨hsize', hbytes'⟩ := of_read_withTotalSize hread'
  have hsizes : region.bytes.size ≤ longer.bytes.size := by
    rw [hsize, hsize']
    exact UInt32.le_iff_toNat_le.mp hle
  refine ⟨hsizes, ?_⟩
  intro i hi hlt
  rw [hbytes i hi hlt, hbytes' i hi (Nat.lt_of_lt_of_le hlt hsizes)]

end Region

/-! ### The tags that still fit -/

/-- Offset behind all that the tag takes up: its header and the bytes that it declares. -/
def TagPosition.reach (p : TagPosition) : Nat :=
  p.offset + max tagHeaderSize p.size.toNat

/-- A position reaches no further than `n` exactly if neither its header nor its declared bytes
do. -/
theorem TagPosition.reach_le {p : TagPosition} {n : Nat} :
    p.reach ≤ n ↔ p.offset + tagHeaderSize ≤ n ∧ p.finish ≤ n := by
  have hfinish : p.finish = p.offset + p.size.toNat := rfl
  rw [reach, hfinish]
  omega

namespace Region

/-- All that the tag takes up lies inside the region. -/
def Fits (region : Region) (p : TagPosition) : Prop :=
  p.reach ≤ region.bytes.size

instance (region : Region) (p : TagPosition) : Decidable (region.Fits p) :=
  inferInstanceAs (Decidable (_ ≤ _))

variable {region longer : Region}

/-- At each place behind the header a shortened region has the position that the longer one has
there, if that position still `Fits`, and none if it does not. -/
theorem positionAt?_of_shortens (h : region.Shortens longer) {start : Nat}
    (hstart : headerSize ≤ start) :
    region.positionAt? start = (longer.positionAt? start).filter (region.Fits ·) := by
  -- A header that fits the shorter region is the same in both.
  have hheader (hroom : start + tagHeaderSize ≤ region.bytes.size) :
      region.bytes.extract start (start + tagHeaderSize) =
        longer.bytes.extract start (start + tagHeaderSize) := by
    apply Bytes.extract_congr
    intro i hi
    exact h.getElem?_eq (start + i) (by omega) (by omega)
  have hsize := h.size_le
  apply Option.ext
  intro p
  rw [Option.filter_eq_some_iff, decide_eq_true_iff, Fits, TagPosition.reach_le,
    positionAt?_eq_some, positionAt?_eq_some, TagHeader.read?_eq_some, TagHeader.read?_eq_some]
  constructor
  · rintro ⟨rfl, ⟨hroom, hkind, hbytes⟩, hfinish⟩
    rw [hheader hroom] at hbytes
    exact ⟨⟨rfl, ⟨by omega, hkind, hbytes⟩, by omega⟩, hroom, hfinish⟩
  · rintro ⟨⟨rfl, ⟨-, hkind, hbytes⟩, -⟩, hroom, hfinish⟩
    rw [← hheader hroom] at hbytes
    exact ⟨rfl, ⟨hroom, hkind, hbytes⟩, hfinish⟩

/-- From a cursor that stands at a place for a tag, `nextTag` of a shortened region hands out what
it hands out for the longer one, if that still `Fits`. -/
theorem nextTag_of_shortens (h : region.Shortens longer) {current : Option TagPosition}
    (hcurrent : StandsPlaced current) :
    region.nextTag current = (longer.nextTag current).filter (region.Fits ·) := by
  rw [nextTag_eq_bind, nextTag_eq_bind]
  cases hstart : startBehind? current with
  | none => rfl
  | some start =>
      refine positionAt?_of_shortens h ?_
      cases current with
      | none => exact Nat.le_of_eq (Option.some.inj hstart)
      | some p =>
          have hlt := TagPosition.offset_lt_of_following? hstart
          have hle := (hcurrent p rfl).headerSize_le
          omega

/-- At a position that fits in the shortened region, `tag?` finds the same tag in both. -/
theorem tag_eq_of_shortens (h : region.Shortens longer) {p : TagPosition} (hplaced : p.Placed)
    (hfits : region.Fits p) {tag tag' : RawTag} (htag : region.tag? p = some tag)
    (htag' : longer.tag? p = some tag') : tag = tag' := by
  obtain ⟨hposition, hbytes⟩ := tag?_eq_some htag
  obtain ⟨hposition', hbytes'⟩ := tag?_eq_some htag'
  refine RawTag.eq_of_position_of_bytes (hposition.trans hposition'.symm) ?_
  rw [hbytes, hbytes']
  have hfinish : p.offset + p.header.size.toNat ≤ region.bytes.size :=
    (TagPosition.reach_le.mp hfits).2
  have hle := hplaced.headerSize_le
  apply Bytes.extract_congr
  intro i hi
  exact h.getElem?_eq (p.offset + i) (by omega) (by omega)

/-- A walk over a shortened region hands out the tags of the walk over the longer one, up to the
first that does not fit. The induction is on the number of steps, with `nextTag_of_shortens` at
each. -/
theorem collect_of_shortens (h : region.Shortens longer) {current : Option TagPosition}
    (hcurrent : StandsPlaced current) (n : Nat) :
    Iteration.collect TagWalk.next n { region, current } =
      (Iteration.collect TagWalk.next n { region := longer, current := current }).takeWhile
        (region.Fits ·.position) := by
  induction n generalizing current with
  | zero => rfl
  | succ n ih =>
      have hnext := nextTag_of_shortens h hcurrent
      cases hlonger : longer.nextTag current with
      | none =>
          rw [hlonger, Option.filter_none] at hnext
          rw [collect_of_none hnext, collect_of_none hlonger, List.takeWhile_nil]
      | some p =>
          obtain ⟨tag', htag', htags'⟩ := collect_of_some hlonger n
          have hposition' : tag'.position = p := (tag?_eq_some htag').1
          rw [hlonger, Option.filter_some] at hnext
          by_cases hfits : region.Fits p
          · -- Both walks go on from the same tag.
            rw [if_pos (decide_eq_true hfits)] at hnext
            obtain ⟨tag, htag, htags⟩ := collect_of_some hnext n
            have hplaced : p.Placed := placed_of_nextTag hcurrent hlonger
            rw [htags, htags', tag_eq_of_shortens h hplaced hfits htag htag',
              List.takeWhile_cons_of_pos (by rw [hposition']; exact decide_eq_true hfits),
              ih hplaced.standsPlaced]
          · -- The shortened walk ends in front of the first tag that does not fit.
            rw [if_neg (by simpa using hfits)] at hnext
            rw [collect_of_none hnext, htags',
              List.takeWhile_cons_of_neg (by rw [hposition']; simpa using hfits)]

/-- The tags of a shortened region are those of the longer one, up to the first that does not
fit. -/
theorem tags_of_shortens (h : region.Shortens longer) :
    region.tags = longer.tags.takeWhile (region.Fits ·.position) := by
  -- The longer region has room for as many steps as both walks need.
  have hroom : region.tagRoom ≤ longer.tagRoom :=
    Nat.div_le_div_right (Nat.sub_le_sub_right h.size_le headerSize)
  have hlength : region.tags.length ≤ longer.tagRoom :=
    Nat.le_trans (region.length_firstTags_le _) hroom
  have hall : region.firstTags longer.tagRoom = region.tags := by
    rw [firstTags_eq_take, List.take_of_length_le hlength]
  rw [← hall]
  exact collect_of_shortens h standsPlaced_none longer.tagRoom

/-! ### Where the closing tag is -/

/-- Of two tags that a walk hands out, the one in front is not closing, and the later one starts
behind the reach of the earlier one. -/
theorem pairwise_collect {tags : List RawTag} {current : Option TagPosition} {n : Nat}
    (h : Iteration.collect TagWalk.next n { region, current } = tags) :
    tags.Pairwise fun tag later =>
      tag.kind ≠ .closing ∧ tag.position.reach ≤ later.position.offset := by
  induction tags generalizing current n with
  | nil => exact .nil
  | cons first tags ih =>
      obtain ⟨-, -, m, hrest⟩ := collect_eq_cons h
      refine .cons ?_ (ih hrest)
      intro later hmem
      obtain ⟨start, hbehind, hle⟩ := exists_startBehind_le hrest later hmem
      obtain ⟨hkind, hsize, -, rfl⟩ := TagPosition.following?_eq_some.mp hbehind
      have hup := Bytes.le_aligned first.position.size.toNat
      refine ⟨hkind, ?_⟩
      rw [TagPosition.reach, Nat.max_eq_right hsize]
      omega

/-- The tags of a region lie one behind the other without overlap, and only the last may be
closing. -/
theorem pairwise_tags (region : Region) :
    region.tags.Pairwise fun tag later =>
      tag.kind ≠ .closing ∧ tag.position.reach ≤ later.position.offset :=
  pairwise_collect rfl

/-- A closing tag of a region is its last tag. None in front of it is closing, and all of those end
before it starts. -/
theorem tags_eq_concat_of_closing {i : Nat} {last : RawTag} (h : region.tags[i]? = some last)
    (hclosing : last.kind = .closing) :
    ∃ front, region.tags = front ++ [last] ∧ front.length = i ∧
      ∀ tag ∈ front, tag.kind ≠ .closing ∧ tag.position.reach ≤ last.position.offset := by
  obtain ⟨hlt, rfl⟩ := List.getElem?_eq_some_iff.mp h
  have hsplit : region.tags = region.tags.take i ++ region.tags[i] :: region.tags.drop (i + 1) := by
    rw [← List.drop_eq_getElem_cons hlt, List.take_append_drop]
  have hpairwise := region.pairwise_tags
  rw [hsplit, List.pairwise_append, List.pairwise_cons] at hpairwise
  obtain ⟨-, ⟨hbehind, -⟩, hfront⟩ := hpairwise
  -- Nothing follows a tag that closes the region.
  have hnone : region.tags.drop (i + 1) = [] := by
    apply List.eq_nil_iff_forall_not_mem.mpr
    intro later hmem
    exact (hbehind later hmem).1 hclosing
  refine ⟨region.tags.take i, ?_, List.length_take_of_le (Nat.le_of_lt hlt), ?_⟩
  · rwa [hnone] at hsplit
  · intro tag hmem
    exact hfront tag hmem _ List.mem_cons_self

/-- Take a shortened region in which the closing tag of the longer one still fits. Then it has all
tags of the longer one. -/
theorem tags_eq_of_closing_fits (h : region.Shortens longer) {i : Nat} {last : RawTag}
    (hlast : longer.tags[i]? = some last) (hclosing : last.kind = .closing)
    (hfits : region.Fits last.position) : region.tags = longer.tags := by
  obtain ⟨front, htags, -, hfront⟩ := tags_eq_concat_of_closing hlast hclosing
  rw [tags_of_shortens h, List.takeWhile_eq_self_iff, htags]
  intro tag hmem
  rw [decide_eq_true_iff]
  rcases List.mem_append.mp hmem with hmem | hmem
  · have hreach := (hfront tag hmem).2
    have hroom := (TagPosition.reach_le.mp hfits).1
    exact Nat.le_trans hreach (by omega)
  · rwa [List.mem_singleton.mp hmem]

/-- Take a shortened region in which the closing tag of the longer one does not fit. Then it has
fewer tags, and none of them is closing. -/
theorem open_tags_of_closing_not_fits (h : region.Shortens longer) {i : Nat} {last : RawTag}
    (hlast : longer.tags[i]? = some last) (hclosing : last.kind = .closing)
    (hfits : ¬ region.Fits last.position) :
    region.tags.length ≤ i ∧ ∀ tag ∈ region.tags, tag.kind ≠ .closing := by
  obtain ⟨front, htags, rfl, hfront⟩ := tags_eq_concat_of_closing hlast hclosing
  have hstarts : region.tags <+: front ++ [last] := by
    rw [tags_of_shortens h, ← htags]
    exact List.takeWhile_prefix _
  rcases List.prefix_concat_iff.mp hstarts with hwhole | hstarts
  · -- The region would have the closing tag, which does not fit.
    have hhas : region.Has last := has_of_mem_tags (by rw [hwhole]; simp)
    exact absurd (TagPosition.reach_le.mpr ⟨hhas.holds.header_le, hhas.holds.finish_le⟩) hfits
  · exact ⟨hstarts.length_le, fun tag hmem => (hfront tag (hstarts.subset hmem)).1⟩

end Region

/-! ### What the region is parsed to -/

namespace BootInfo

/-- Set two sizes in the same bytes, and suppose that both headers are accepted. Then the tags under
the smaller size are the first tags under the greater one. If under the greater size the closing tag
is visited in time, there is one threshold: as long as the header and the bytes of that tag lie
within the smaller size, `parse` has the same outcome and the same log; below that it misses the end
tag. -/
theorem parse_withTotalSize {bytes : ByteArray} {limits : Limits} {size size' : UInt32}
    {region longer : Region} (hle : size ≤ size')
    (hread : Region.read (Header.withTotalSize bytes size) limits = .ok region)
    (hread' : Region.read (Header.withTotalSize bytes size') limits = .ok longer) :
    region.tags <+: longer.tags ∧
      ∀ (i : Nat) (last : RawTag), i < limits.maxTags.toNat → longer.tags[i]? = some last →
        last.kind = .closing →
          (last.position.offset + max tagHeaderSize last.size.toNat ≤ size.toNat →
            parse (Header.withTotalSize bytes size) limits =
              parse (Header.withTotalSize bytes size') limits) ∧
          (size.toNat < last.position.offset + max tagHeaderSize last.size.toNat →
            (parse (Header.withTotalSize bytes size) limits).value = .error .missingEndTag) := by
  have hshortens := Region.shortens_of_read hle hread hread'
  have hsize := (Region.of_read_withTotalSize hread).1
  constructor
  · rw [Region.tags_of_shortens hshortens]
    exact List.takeWhile_prefix _
  · intro i last hi hlast hclosing
    rw [← hsize]
    constructor
    · intro hfits
      have htags := Region.tags_eq_of_closing_fits hshortens hlast hclosing hfits
      have hparse : parseRegion region limits = parseRegion longer limits := by
        apply parseRegion_congr
        rw [survey_eq_run, survey_eq_run, htags]
      simp only [parse, hread, hread', hparse]
    · intro hcut
      obtain ⟨hlength, hopen⟩ :=
        Region.open_tags_of_closing_not_fits hshortens hlast hclosing (Nat.not_le.mpr hcut)
      have hending := Survey.endingOf_eq_unterminated.mpr
        ⟨Nat.le_trans hlength (Nat.le_of_lt hi), hopen⟩
      rw [parse, hread]
      dsimp only
      rw [parseRegion_value_eq, hending]

/-- A memory map without entries, and a closing tag that declares eleven bytes, with some
bytes behind it. -/
def oddBytes : ByteArray :=
  [0x4B, 0x4F, 0x42, 0x44, 0, 0, 0, 0, 1, 0, 0, 0, 0, 0, 0, 0,
    0x02, 0x00, 0, 0, 16, 0, 0, 0, 24, 0, 0, 0, 0, 0, 0, 0,
    0x00, 0x00, 0, 0, 11, 0, 0, 0, 1, 2, 3, 4, 5, 6, 7, 8].toByteArray

/-- The same bytes as a region of their own size. -/
def oddRegion : Region where
  header := ⟨regionMagic, 48, 1, 0⟩
  bytes := Header.withTotalSize oddBytes 48
  size_bytes := by decide
  minTotalSize_le := by decide

/-- Take `oddBytes`, whose closing tag declares an odd size and ends at forty-three bytes. Then, by
`parse_withTotalSize`, a size of forty-three is parsed like the full forty-eight, and with forty-two
the end tag is missing. -/
theorem parse_withTotalSize_odd :
    Region.read (Header.withTotalSize oddBytes 48) .standard = .ok oddRegion ∧
      (∃ last, oddRegion.tags[1]? = some last ∧ last.kind = .closing ∧
        last.position.offset + max tagHeaderSize last.size.toNat = 43) ∧
      (parse (Header.withTotalSize oddBytes 48) .standard).value.isOk = true ∧
      parse (Header.withTotalSize oddBytes 43) .standard =
        parse (Header.withTotalSize oddBytes 48) .standard ∧
      (parse (Header.withTotalSize oddBytes 42) .standard).value = .error .missingEndTag := by
  have hread : Region.read (Header.withTotalSize oddBytes 48) .standard = .ok oddRegion :=
    Region.read_eq_ok.mpr ⟨Header.read_eq_ok.mpr ⟨by decide, by decide⟩, by decide +kernel⟩
  -- The last tag ends in the middle of a word, at 43, so the padding behind it may go.
  have hlast : ∃ last, oddRegion.tags[1]? = some last ∧ last.kind = .closing ∧
      last.position.offset + max tagHeaderSize last.size.toNat = 43 := by
    have hsome : (oddRegion.tags[1]?).map (fun last =>
        (last.kind, last.position.offset + max tagHeaderSize last.size.toNat)) =
          some (.closing, 43) := by decide +kernel
    obtain ⟨last, hlast, hsays⟩ := Option.map_eq_some_iff.mp hsome
    exact ⟨last, hlast, (Prod.mk.inj hsays).1, (Prod.mk.inj hsays).2⟩
  have hok : (Region.read (Header.withTotalSize oddBytes 43) .standard).isOk = true := by
    decide +kernel
  have hok' : (Region.read (Header.withTotalSize oddBytes 42) .standard).isOk = true := by
    decide +kernel
  obtain ⟨whole, hwhole⟩ := exists_of_isOk hok
  obtain ⟨cut, hcut⟩ := exists_of_isOk hok'
  refine ⟨hread, hlast, by decide +kernel, ?_, ?_⟩
  · obtain ⟨last, hat, hclosing, hreach⟩ := hlast
    exact ((parse_withTotalSize (by decide) hwhole hread).2 1 last (by decide) hat hclosing).1
      (Nat.le_of_eq hreach)
  · obtain ⟨last, hat, hclosing, hreach⟩ := hlast
    refine ((parse_withTotalSize (by decide) hcut hread).2 1 last (by decide) hat hclosing).2 ?_
    rw [hreach]
    decide

end BootInfo

end EarlyBoot

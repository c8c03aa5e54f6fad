import EarlyBoot.Proofs.BootInfo.Outcome
import EarlyBoot.Proofs.Bytes.Stretch
import EarlyBoot.Proofs.Tag.Chain

/-!
# `EarlyBoot.Proofs.BootInfo.Unread`: the bytes that nobody reads

Most of a region may be junk: the padding behind a tag, everything behind the header of
the closing tag, and the flags and the payload of tags that have no slot. None of these
bytes reaches what a region is parsed to. This is said of two regions of the same size
that may differ in all of them at once.

Both are walked in step. At each tag the bytes of its code and of its size are read, and
these are the same in both, so the two cursors go on to the same place
(`map_outline_nextTag`). A tag that has a slot is the same in both altogether, so a survey
cannot tell the tags apart (`alike_of_collect`). Behind the tag the regions agree again,
because no tag leaves anything unread from the next one on (`AgreeFrom.tail`).

Main statements:

* `unread_cons` : because of which tag a byte is unread;
* `alike_collect` : what two walks hand out, step by step;
* `parse_of_agree` : regions that differ in unread bytes only are parsed alike.
-/

set_option autoImplicit false

namespace EarlyBoot

/-! ### Unread bytes -/

namespace RawTag

/-- The offset lies in the padding between the tag and the next one. -/
def PadsAt (tag : RawTag) (i : Nat) : Prop :=
  tagHeaderSize ≤ tag.size.toNat ∧ tag.position.finish ≤ i ∧
    i < tag.position.offset + Bytes.aligned tag.size.toNat

/-- The offset lies behind the header of the tag, which is the closing one. -/
def ClosesAt (tag : RawTag) (i : Nat) : Prop :=
  tag.kind = .closing ∧ tag.position.offset + tagHeaderSize ≤ i

/-- The offset lies in the flags or in the payload of the tag, which has no slot. -/
def IgnoredAt (tag : RawTag) (i : Nat) : Prop :=
  tag.kind.isConsumed = false ∧
    (tag.position.offset + 2 ≤ i ∧ i < tag.position.offset + 4 ∨
      tag.position.offset + tagHeaderSize ≤ i ∧ i < tag.position.finish)

/-- Nobody reads the byte at the offset, for one of the three reasons. -/
def UnreadAt (tag : RawTag) (i : Nat) : Prop :=
  tag.PadsAt i ∨ tag.ClosesAt i ∨ tag.IgnoredAt i

instance (tag : RawTag) (i : Nat) : Decidable (tag.PadsAt i) :=
  inferInstanceAs (Decidable (_ ∧ _ ∧ _))

instance (tag : RawTag) (i : Nat) : Decidable (tag.ClosesAt i) :=
  inferInstanceAs (Decidable (_ ∧ _))

instance (tag : RawTag) (i : Nat) : Decidable (tag.IgnoredAt i) :=
  inferInstanceAs (Decidable (_ ∧ (_ ∧ _ ∨ _ ∧ _)))

instance (tag : RawTag) (i : Nat) : Decidable (tag.UnreadAt i) :=
  inferInstanceAs (Decidable (_ ∨ _ ∨ _))

end RawTag

/-- Nobody reads the byte at the offset, because of one of the tags. -/
def Unread (tags : List RawTag) (i : Nat) : Prop :=
  ∃ tag ∈ tags, tag.UnreadAt i

instance (tags : List RawTag) (i : Nat) : Decidable (Unread tags i) :=
  inferInstanceAs (Decidable (∃ tag ∈ tags, tag.UnreadAt i))

namespace RawTag

/-- In the header of a tag only the flags may be unread because of that tag; its code and its size
are always read. -/
theorem UnreadAt.of_header {tag : RawTag} {i : Nat} (h : tag.UnreadAt i) :
    tag.position.offset + 2 ≤ i ∧ i < tag.position.offset + 4 ∨
      tag.position.offset + tagHeaderSize ≤ i := by
  rcases h with ⟨hsize, hfinish, -⟩ | ⟨-, hbehind⟩ | ⟨-, hflags | ⟨hpayload, -⟩⟩
  · exact .inr (Nat.le_trans (Nat.add_le_add_left hsize _) hfinish)
  · exact .inr hbehind
  · exact .inl hflags
  · exact .inr hpayload

/-- Because of a tag that has a slot only its padding is unread. -/
theorem UnreadAt.padsAt {tag : RawTag} {i : Nat} (hconsumed : tag.kind.isConsumed = true)
    (h : tag.UnreadAt i) : tag.PadsAt i := by
  rcases h with hpadding | ⟨hclosing, -⟩ | ⟨hignored, -⟩
  · exact hpadding
  · rw [hclosing] at hconsumed
    cases hconsumed
  · rw [hignored] at hconsumed
    cases hconsumed

/-- A tag that another one can follow leaves nothing unread from the start of that one on. -/
theorem UnreadAt.lt_of_following? {tag : RawTag} {i start : Nat}
    (hbehind : tag.position.following? = some start) (h : tag.UnreadAt i) : i < start := by
  obtain ⟨hkind, hsize, -, rfl⟩ := TagPosition.following?_eq_some.mp hbehind
  have hup := Bytes.le_aligned tag.position.size.toNat
  have hend : tag.position.finish = tag.position.offset + tag.position.size.toNat := rfl
  rcases h with ⟨-, -, hpadding⟩ | ⟨hclosing, -⟩ | ⟨-, ⟨-, hflags⟩ | ⟨-, hpayload⟩⟩
  · exact hpadding
  · exact absurd hclosing hkind
  · simp only [tagHeaderSize] at hsize
    omega
  · omega

end RawTag

namespace Region

/-! ### Because of which tag a byte is unread -/

/-- Take an offset that is unread in a walk. Then it is unread because of the first tag, or it is
unread because of the others and lies where those start. -/
theorem unread_cons {region : Region} {current : Option TagPosition} {n i : Nat} {tag : RawTag}
    {tags : List RawTag}
    (h : Iteration.collect TagWalk.next n { region, current } = tag :: tags)
    (hunread : Unread (tag :: tags) i) :
    tag.UnreadAt i ∨
      Unread tags i ∧ ∃ start, tag.position.following? = some start ∧ start ≤ i := by
  obtain ⟨found, hmem, hfound⟩ := hunread
  rcases List.mem_cons.mp hmem with rfl | hmem
  · exact .inl hfound
  · obtain ⟨-, -, m, hrest⟩ := collect_eq_cons h
    obtain ⟨start, hbehind, hle⟩ := exists_startBehind_le hrest found hmem
    have hfrom := hfound.of_header
    exact .inr ⟨⟨found, hmem, hfound⟩, start, hbehind, by omega⟩

/-- The code and the size of the next tag are read, wherever the walk stands. -/
theorem not_unread_of_header {region : Region} {current : Option TagPosition} {start n i : Nat}
    (hstart : startBehind? current = some start)
    (hi : i < start + 2 ∨ start + 4 ≤ i ∧ i < start + tagHeaderSize) :
    ¬ Unread (Iteration.collect TagWalk.next n { region, current }) i := by
  intro hunread
  cases htags : Iteration.collect TagWalk.next n { region, current } with
  | nil =>
      rw [htags] at hunread
      obtain ⟨tag, hmem, -⟩ := hunread
      cases hmem
  | cons tag tags =>
      rw [htags] at hunread
      have hoffset : tag.position.offset = start :=
        offset_of_nextTag hstart (collect_eq_cons htags).1
      simp only [tagHeaderSize] at hi
      rcases unread_cons htags hunread with hfirst | ⟨-, start', hbehind, hle⟩
      · have hfrom := hfirst.of_header
        simp only [tagHeaderSize] at hfrom
        omega
      · -- The others start behind the header of this one.
        obtain ⟨-, hsize, -, hstart'⟩ := TagPosition.following?_eq_some.mp hbehind
        have hup := Bytes.le_aligned tag.position.size.toNat
        simp only [tagHeaderSize] at hsize
        omega

/-- All bytes of the next tag are read, if its kind has a slot. -/
theorem not_unread_of_consumed {region : Region} {current : Option TagPosition} {n i : Nat}
    {tag : RawTag} {tags : List RawTag}
    (h : Iteration.collect TagWalk.next n { region, current } = tag :: tags)
    (hconsumed : tag.kind.isConsumed = true)
    (hi : i < tag.position.offset + tagHeaderSize ∨ i < tag.position.finish) :
    ¬ Unread (tag :: tags) i := by
  intro hunread
  have hend : tag.position.finish = tag.position.offset + tag.position.size.toNat := rfl
  rcases unread_cons h hunread with hfirst | ⟨-, start, hbehind, hle⟩
  · obtain ⟨hsize, hfinish, -⟩ := hfirst.padsAt hconsumed
    have hsize' : tagHeaderSize ≤ tag.position.size.toNat := hsize
    omega
  · obtain ⟨-, hsize, -, hstart⟩ := TagPosition.following?_eq_some.mp hbehind
    have hup := Bytes.le_aligned tag.position.size.toNat
    omega

/-! ### Two walks in step -/

/-- The bytes of two regions are the same from `start` on, but for those that the tags of
either leave unread. -/
def AgreeFrom (region region' : Region) (start : Nat) (tags tags' : List RawTag) : Prop :=
  ∀ i, start ≤ i → region.bytes[i]? = region'.bytes[i]? ∨ Unread tags i ∨ Unread tags' i

/-- Regions that agree from `start` on have the same byte at each later offset that both read. -/
theorem AgreeFrom.getElem?_eq {region region' : Region} {start i : Nat} {tags tags' : List RawTag}
    (h : AgreeFrom region region' start tags tags') (hi : start ≤ i) (hread : ¬ Unread tags i)
    (hread' : ¬ Unread tags' i) : region.bytes[i]? = region'.bytes[i]? := by
  rcases h i hi with heq | hunread | hunread
  · exact heq
  · exact absurd hunread hread
  · exact absurd hunread hread'

/-- Regions that agree from one tag on agree from the next tag on. -/
theorem AgreeFrom.tail {region region' : Region} {current current' : Option TagPosition}
    {start next n n' : Nat} {tag tag' : RawTag} {tags tags' : List RawTag}
    (hagree : AgreeFrom region region' start (tag :: tags) (tag' :: tags'))
    (h : Iteration.collect TagWalk.next n { region, current } = tag :: tags)
    (h' : Iteration.collect TagWalk.next n' { region := region', current := current' } =
      tag' :: tags')
    (hnext : tag.position.following? = some next) (hnext' : tag'.position.following? = some next)
    (hle : start ≤ next) : AgreeFrom region region' next tags tags' := by
  intro i hi
  -- What the first tag leaves unread lies in front of the next one, so it is not needed any more.
  rcases hagree i (Nat.le_trans hle hi) with heq | hunread | hunread
  · exact .inl heq
  · rcases unread_cons h hunread with hfirst | ⟨hrest, -⟩
    · exact absurd (hfirst.lt_of_following? hnext) (Nat.not_lt.mpr hi)
    · exact .inr (.inl hrest)
  · rcases unread_cons h' hunread with hfirst | ⟨hrest, -⟩
    · exact absurd (hfirst.lt_of_following? hnext') (Nat.not_lt.mpr hi)
    · exact .inr (.inr hrest)

end Region

/-- What a position says, but for the flags. -/
def TagPosition.outline (p : TagPosition) : Nat × TagKind × UInt32 :=
  (p.offset, p.kind, p.size)

/-- The outline of a position is its offset, its kind and its size; the flags are left out. -/
theorem TagPosition.outline_inj {p p' : TagPosition} :
    p.outline = p'.outline ↔ p.offset = p'.offset ∧ p.kind = p'.kind ∧ p.size = p'.size := by
  simp only [outline, Prod.mk.injEq]

/-- Where the next tag starts is told by the outline, so flags do not matter to `following?`. -/
theorem TagPosition.following?_congr {p p' : TagPosition} (h : p.outline = p'.outline) :
    p.following? = p'.following? := by
  obtain ⟨hoffset, hkind, hsize⟩ := outline_inj.mp h
  rw [following?, following?, hoffset, hkind, hsize]

/-- A tag header is told by its eight bytes. -/
theorem TagHeader.read?_congr {x y : ByteArray} {offset : Nat} (hsize : x.size = y.size)
    (h : ∀ i < tagHeaderSize, x[offset + i]? = y[offset + i]?) :
    read? x offset = read? y offset := by
  simp only [tagHeaderSize] at h
  -- Two bytes of kind, two of flags and four of size make up the header.
  have hcode : Bytes.field? x offset 2 = Bytes.field? y offset 2 :=
    Bytes.field?_congr hsize fun i hi => h i (by omega)
  have hflags : Bytes.field? x (offset + 2) 2 = Bytes.field? y (offset + 2) 2 := by
    apply Bytes.field?_congr hsize
    intro i hi
    rw [Nat.add_assoc]
    exact h (2 + i) (by omega)
  have hlength : Bytes.field? x (offset + 4) 4 = Bytes.field? y (offset + 4) 4 := by
    apply Bytes.field?_congr hsize
    intro i hi
    rw [Nat.add_assoc]
    exact h (4 + i) (by omega)
  simp only [read?, Bytes.uint16?, Bytes.uint32?, hcode, hflags, hlength]

namespace Region

/-- The outline of the position at an offset is read off the code and the size there, and needs the
declared bytes to lie inside the region. -/
theorem map_outline_positionAt? (region : Region) (offset : Nat) :
    (region.positionAt? offset).map TagPosition.outline =
      (Bytes.uint16? region.bytes offset).bind fun code =>
        (Bytes.uint32? region.bytes (offset + 4)).bind fun size =>
          if offset + size.toNat ≤ region.bytes.size then some (offset, .ofCode code, size)
          else none := by
  unfold positionAt? TagHeader.read?
  cases hcode : Bytes.uint16? region.bytes offset with
  | none => rfl
  | some code =>
      cases hsize : Bytes.uint32? region.bytes (offset + 4) with
      | none => cases Bytes.uint16? region.bytes (offset + 2) <;> rfl
      | some size =>
          -- The flags lie between the two, so they are there as well.
          have hfit : offset + 4 + 4 ≤ region.bytes.size := (Bytes.uint32?_eq_some.mp hsize).1
          have hflags : (Bytes.uint16? region.bytes (offset + 2)).isSome := by
            rw [Bytes.uint16?, Option.isSome_map, Bytes.field?_isSome, decide_eq_true_iff]
            omega
          obtain ⟨flags, hflags⟩ := Option.isSome_iff_exists.mp hflags
          rw [hflags]
          show Option.map TagPosition.outline (if offset + size.toNat ≤ region.bytes.size then
            some ⟨offset, .ofCode code, flags, size⟩ else none) = _
          rw [apply_ite (Option.map TagPosition.outline)]
          rfl

/-- Take two regions of one size that agree from where the cursors stand. Then `nextTag` hands out
positions with the same outline in both, or none in both. -/
theorem map_outline_nextTag {region region' : Region} {current current' : Option TagPosition}
    {start n n' : Nat} (hsize : region.bytes.size = region'.bytes.size)
    (hstart : startBehind? current = some start) (hstart' : startBehind? current' = some start)
    (hagree : AgreeFrom region region' start
      (Iteration.collect TagWalk.next n { region, current })
      (Iteration.collect TagWalk.next n' { region := region', current := current' })) :
    (region.nextTag current).map TagPosition.outline =
      (region'.nextTag current').map TagPosition.outline := by
  have hheader {i : Nat} (hle : start ≤ i)
      (hi : i < start + 2 ∨ start + 4 ≤ i ∧ i < start + tagHeaderSize) :
      region.bytes[i]? = region'.bytes[i]? :=
    hagree.getElem?_eq hle (not_unread_of_header hstart hi) (not_unread_of_header hstart' hi)
  simp only [tagHeaderSize] at hheader
  -- The kind and the size are compared, not the flags between them, which may differ.
  have hcode : Bytes.field? region.bytes start 2 = Bytes.field? region'.bytes start 2 := by
    apply Bytes.field?_congr hsize
    intro i hi
    exact hheader (by omega) (by omega)
  have hlength :
      Bytes.field? region.bytes (start + 4) 4 = Bytes.field? region'.bytes (start + 4) 4 := by
    apply Bytes.field?_congr hsize
    intro i hi
    exact hheader (by omega) (by omega)
  rw [nextTag_eq_bind, nextTag_eq_bind, hstart, hstart', Option.bind_some, Option.bind_some,
    map_outline_positionAt?, map_outline_positionAt?, Bytes.uint16?, Bytes.uint16?, Bytes.uint32?,
    Bytes.uint32?, hcode, hlength, hsize]

/-- Take two regions that agree from where the cursors stand. Then the first tags that the two walks
hand out are `Alike`: a survey cannot tell them apart. -/
theorem alike_of_collect {region region' : Region} {current current' : Option TagPosition}
    {start n n' : Nat} {tag tag' : RawTag} {tags tags' : List RawTag}
    (hsize : region.bytes.size = region'.bytes.size)
    (hstart : startBehind? current = some start) (hstart' : startBehind? current' = some start)
    (h : Iteration.collect TagWalk.next n { region, current } = tag :: tags)
    (h' : Iteration.collect TagWalk.next n' { region := region', current := current' } =
      tag' :: tags')
    (houtline : tag.position.outline = tag'.position.outline)
    (hagree : AgreeFrom region region' start (tag :: tags) (tag' :: tags')) :
    BootInfo.Survey.Alike tag tag' := by
  obtain ⟨hoffset, hkind, hlength⟩ := TagPosition.outline_inj.mp houtline
  have hkind' : tag.kind = tag'.kind := hkind
  refine ⟨hkind', ?_⟩
  intro hconsumed
  obtain ⟨hnext, hbytes, -⟩ := collect_eq_cons h
  obtain ⟨hnext', hbytes', -⟩ := collect_eq_cons h'
  have hat : tag.position.offset = start := offset_of_nextTag hstart hnext
  have hend : tag.position.finish = tag'.position.finish := by
    rw [TagPosition.finish, TagPosition.finish, hoffset]
    exact congrArg (tag'.position.offset + ·.toNat) hlength
  -- All bytes of the tag and of its header are read, so they are the same.
  have hread {i : Nat} (hle : start ≤ i)
      (hi : i < tag.position.offset + tagHeaderSize ∨ i < tag.position.finish) :
      region.bytes[i]? = region'.bytes[i]? := by
    refine hagree.getElem?_eq hle (not_unread_of_consumed h hconsumed hi) ?_
    rw [hoffset, hend] at hi
    exact not_unread_of_consumed h' (hkind' ▸ hconsumed) hi
  have hposition : tag.position = tag'.position := by
    have hheader : TagHeader.read? region.bytes start = TagHeader.read? region'.bytes start := by
      apply TagHeader.read?_congr hsize
      intro i hi
      exact hread (by omega) (.inl (by omega))
    rw [nextTag_eq_bind, hstart, Option.bind_some, positionAt?, hheader, hsize, ← positionAt?]
      at hnext
    rw [nextTag_eq_bind, hstart', Option.bind_some, hnext, Option.some.injEq] at hnext'
    exact hnext'
  have hcontents : tag.bytes = tag'.bytes := by
    rw [hbytes, hbytes', hposition, TagPosition.finish]
    apply Bytes.extract_congr
    intro i hi
    rw [← hposition] at hi ⊢
    exact hread (by omega) (.inr (Nat.add_lt_add_left hi _))
  exact RawTag.eq_of_position_of_bytes hposition hcontents

/-- Two walks over regions that agree hand out tags that are `Alike` one by one. The induction is on
the number of steps, with `alike_of_collect` for the first tags and `AgreeFrom.tail` for the
rest. -/
theorem alike_collect {region region' : Region} (hsize : region.bytes.size = region'.bytes.size)
    {current current' : Option TagPosition} {start n : Nat}
    (hstart : startBehind? current = some start) (hstart' : startBehind? current' = some start)
    (hagree : AgreeFrom region region' start
      (Iteration.collect TagWalk.next n { region, current })
      (Iteration.collect TagWalk.next n { region := region', current := current' })) :
    List.Forall₂ BootInfo.Survey.Alike
      (Iteration.collect TagWalk.next n { region, current })
      (Iteration.collect TagWalk.next n { region := region', current := current' }) := by
  -- At each tag both cursors go on to the same place, from which the regions agree again.
  induction n generalizing current current' start with
  | zero => exact .nil
  | succ n ih =>
      have houtline := map_outline_nextTag hsize hstart hstart' hagree
      cases hnext : region.nextTag current with
      | none =>
          rw [hnext, Option.map_none, eq_comm, Option.map_eq_none_iff] at houtline
          rw [collect_of_none hnext, collect_of_none houtline]
          exact .nil
      | some p =>
          rw [hnext, Option.map_some, eq_comm, Option.map_eq_some_iff] at houtline
          obtain ⟨p', hnext', houtline⟩ := houtline
          obtain ⟨tag, htag, htags⟩ := collect_of_some hnext n
          obtain ⟨tag', htag', htags'⟩ := collect_of_some hnext' n
          obtain ⟨rfl, -⟩ := tag?_eq_some htag
          obtain ⟨rfl, -⟩ := tag?_eq_some htag'
          rw [htags, htags'] at hagree ⊢
          have hsame : tag.position.following? = tag'.position.following? :=
            TagPosition.following?_congr houtline.symm
          refine .cons (alike_of_collect hsize hstart hstart' htags htags' houtline.symm hagree) ?_
          cases hbehind : startBehind? (some tag.position) with
          | none =>
              have hend : region.nextTag (some tag.position) = none := by
                rw [nextTag_eq_bind, hbehind, Option.bind_none]
              have hend' : region'.nextTag (some tag'.position) = none := by
                rw [nextTag_eq_bind, startBehind?, ← hsame, ← startBehind?, hbehind,
                  Option.bind_none]
              rw [collect_of_none hend, collect_of_none hend']
              exact .nil
          | some next =>
              have hbehind' : startBehind? (some tag'.position) = some next :=
                hsame.symm.trans hbehind
              have hlt : start < next := by
                rw [← offset_of_nextTag hstart hnext]
                exact TagPosition.offset_lt_of_following? hbehind
              exact ih hbehind hbehind'
                (hagree.tail htags htags' hbehind hbehind' (Nat.le_of_lt hlt))

/-- Regions of one size that agree behind their headers have tags that a survey cannot tell
apart. -/
theorem alike_tags {region region' : Region} (hsize : region.bytes.size = region'.bytes.size)
    (hagree : AgreeFrom region region' headerSize region.tags region'.tags) :
    List.Forall₂ BootInfo.Survey.Alike region.tags region'.tags := by
  have hroom : region'.tagRoom = region.tagRoom := by rw [tagRoom, tagRoom, hsize]
  rw [tags, tags, hroom] at hagree ⊢
  exact alike_collect hsize rfl rfl hagree

end Region

namespace BootInfo

/-- Take two byte strings whose headers are accepted with the same size. Suppose that behind the
header, up to that size, they differ only where `Unread` says so in one of them: in the padding
behind a tag, behind the header of the closing tag, or in the flags and the payload of a tag without
a slot. Then `parse` has the same outcome and the same log for both. -/
theorem parse_of_agree {bytes bytes' : ByteArray} {limits : Limits} {region region' : Region}
    (hread : Region.read bytes limits = .ok region)
    (hread' : Region.read bytes' limits = .ok region')
    (hsize : region.header.totalSize = region'.header.totalSize)
    (hagree : ∀ i < region.header.totalSize.toNat, headerSize ≤ i →
      bytes[i]? = bytes'[i]? ∨ Unread region.tags i ∨ Unread region'.tags i) :
    parse bytes limits = parse bytes' limits := by
  have hsizes : region.bytes.size = region'.bytes.size := by
    rw [region.size_bytes, region'.size_bytes, hsize]
  -- Beyond the total size both regions are at their end.
  have hfrom : region.AgreeFrom region' headerSize region.tags region'.tags := by
    intro i hi
    rw [(Region.read_eq_ok.mp hread).2, (Region.read_eq_ok.mp hread').2, ← hsize,
      Bytes.getElem?_extract_zero, Bytes.getElem?_extract_zero]
    by_cases hlt : i < region.header.totalSize.toNat
    · rw [if_pos hlt, if_pos hlt]
      exact hagree i hlt hi
    · rw [if_neg hlt, if_neg hlt]
      exact .inl rfl
  have halike := Region.alike_tags hsizes hfrom
  have hparse : parseRegion region limits = parseRegion region' limits := by
    apply parseRegion_congr
    rw [survey_eq_run, survey_eq_run]
    exact Survey.run_congr halike _ _
  simp only [parse, hread, hread', hparse]

/-- A region of eighty bytes with a command line, a vendor's tag and a memory map, whose
unread bytes are zero. -/
def quietRegion : Region where
  header := ⟨regionMagic, 80, 1, 0⟩
  bytes :=
    [0x4B, 0x4F, 0x42, 0x44, 80, 0, 0, 0, 1, 0, 0, 0, 0, 0, 0, 0,
      0x01, 0x00, 0, 0, 10, 0, 0, 0, 0x68, 0, 0, 0, 0, 0, 0, 0,
      0x00, 0x80, 0, 0, 12, 0, 0, 0, 0, 0, 0, 0, 0, 0, 0, 0,
      0x02, 0x00, 0, 0, 16, 0, 0, 0, 24, 0, 0, 0, 0, 0, 0, 0,
      0x00, 0x00, 0, 0, 8, 0, 0, 0, 0, 0, 0, 0, 0, 0, 0, 0].toByteArray
  size_bytes := by decide
  minTotalSize_le := by decide

/-- The same tags in a later version, with junk wherever nobody reads: in the padding, in
the tag of the vendor, and behind the closing tag, where it looks like a tag. -/
def noisyRegion : Region where
  header := ⟨regionMagic, 80, 7, 0⟩
  bytes :=
    [0x4B, 0x4F, 0x42, 0x44, 80, 0, 0, 0, 7, 0, 0, 0, 0, 0, 0, 0,
      0x01, 0x00, 0, 0, 10, 0, 0, 0, 0x68, 0, 0xFF, 0xFF, 0xFF, 0xFF, 0xFF, 0xFF,
      0x00, 0x80, 5, 0, 12, 0, 0, 0, 1, 2, 3, 4, 0xEE, 0xEE, 0xEE, 0xEE,
      0x02, 0x00, 0, 0, 16, 0, 0, 0, 24, 0, 0, 0, 0, 0, 0, 0,
      0x00, 0x00, 0, 0, 8, 0, 0, 0, 0x01, 0x00, 9, 0, 8, 0, 0, 0].toByteArray
  size_bytes := by decide
  minTotalSize_le := by decide

/-- Take `noisyRegion`, which has junk wherever `quietRegion` has unread zeros, and put more bytes
behind it. Then the bytes differ, and `parse_of_agree` still gives the same outcome and log. -/
theorem parse_of_agree_noisy :
    Region.read quietRegion.bytes .standard = .ok quietRegion ∧
      Region.read (noisyRegion.bytes ++ [1, 2, 3].toByteArray) .standard = .ok noisyRegion ∧
        quietRegion.tags.length = 4 ∧ quietRegion.bytes ≠ noisyRegion.bytes ∧
          parse quietRegion.bytes .standard =
            parse (noisyRegion.bytes ++ [1, 2, 3].toByteArray) .standard := by
  have hread : Region.read quietRegion.bytes .standard = .ok quietRegion :=
    Region.read_eq_ok.mpr ⟨Header.read_eq_ok.mpr ⟨by decide, by decide⟩, by decide +kernel⟩
  have hread' : Region.read (noisyRegion.bytes ++ [1, 2, 3].toByteArray) .standard =
      .ok noisyRegion :=
    Region.read_eq_ok.mpr ⟨Header.read_eq_ok.mpr ⟨by decide, by decide⟩, by decide +kernel⟩
  refine ⟨hread, hread', by decide +kernel, by decide +kernel, parse_of_agree hread hread' rfl ?_⟩
  decide +kernel

end BootInfo

end EarlyBoot

import EarlyBoot.Proofs.Bytes.Fields
import EarlyBoot.Tag.Position

/-!
# `EarlyBoot.Proofs.Tag.Cursor`: positions that are carried between regions

The cursor takes any position that was handed out before, also one that another
region handed out, and a shorter or a longer one. What it relies on is only that
the offset of such a position is that of a tag: behind the header of a region and
at a multiple of the tag alignment. Every step keeps that (`Placed`), because the
size of a tag is rounded up before it is added. Everything else about a new
position is checked against the region that hands it out.

Main statements:

* `TagHeader.read?_eq_some` : a tag header is read exactly where its bytes are;
* `Handed.placed` : every position that was handed out is placed like a tag;
* `nextTag_holds` : a position lies inside the region that hands it out, and
  behind the one that it was reached from, whichever region that came from.
-/

set_option autoImplicit false

namespace EarlyBoot

/-! ### The bytes of a tag header -/

namespace TagHeader

/-- The bytes of a tag header. -/
def encode (h : TagHeader) : ByteArray :=
  Bytes.le16 h.kind.code ++ Bytes.le16 h.flags ++ Bytes.le32 h.size

/-- A tag header is read exactly where its bytes, as `encode` writes them, are; its kind is one that
a code stands for. -/
theorem read?_eq_some {bytes : ByteArray} {offset : Nat} {header : TagHeader} :
    read? bytes offset = some header ↔
      offset + tagHeaderSize ≤ bytes.size ∧ TagKind.ofCode header.kind.code = header.kind ∧
        bytes.extract offset (offset + tagHeaderSize) = header.encode := by
  -- The eight bytes of a header are those of its three fields, side by side.
  have hsplit : bytes.extract offset (offset + 8) =
      bytes.extract offset (offset + 2) ++ bytes.extract (offset + 2) (offset + 4) ++
        bytes.extract (offset + 4) (offset + 8) := by
    rw [← ByteArray.extract_eq_extract_append_extract (offset + 2) (by omega) (by omega),
      ← ByteArray.extract_eq_extract_append_extract (offset + 4) (by omega) (by omega)]
  simp only [tagHeaderSize, encode]
  constructor
  · intro h
    simp only [read?, Option.bind_eq_bind, Option.bind_eq_some_iff, Option.pure_def,
      Option.some.injEq] at h
    obtain ⟨code, hcode, flags, hflags, size, hsize, rfl⟩ := h
    obtain ⟨-, hcode⟩ := Bytes.uint16?_eq_some.mp hcode
    obtain ⟨-, hflags⟩ := Bytes.uint16?_eq_some.mp hflags
    obtain ⟨hle, hsize⟩ := Bytes.uint32?_eq_some.mp hsize
    refine ⟨by omega, by rw [TagKind.code_ofCode], ?_⟩
    rw [hsplit, hcode, hflags, hsize, TagKind.code_ofCode]
  · rintro ⟨hle, hkind, hbytes⟩
    rw [hsplit] at hbytes
    -- Parts of the same sizes that join to the same bytes are the same.
    have hsizes : (bytes.extract offset (offset + 2)).size = 2 ∧
        (bytes.extract (offset + 2) (offset + 4)).size = 2 := by
      simp only [ByteArray.size_extract]
      omega
    obtain ⟨hfront, hsize⟩ := (ByteArray.append_eq_append_iff_of_size_eq_left (by
      simp only [ByteArray.size_append, Bytes.size_le16, hsizes])).mp hbytes
    obtain ⟨hcode, hflags⟩ := (ByteArray.append_eq_append_iff_of_size_eq_left (by
      simp only [Bytes.size_le16, hsizes])).mp hfront
    have h₁ := Bytes.uint16?_eq_some.mpr ⟨by omega, hcode⟩
    have h₂ := Bytes.uint16?_eq_some.mpr ⟨by omega, hflags⟩
    have h₃ := Bytes.uint32?_eq_some.mpr ⟨by omega, hsize⟩
    simp [read?, h₁, h₂, h₃, hkind]

end TagHeader

/-! ### One position -/

namespace TagPosition

/-- The offset is one that a tag can have. -/
structure Placed (p : TagPosition) : Prop where
  /-- The header of the region comes first. -/
  headerSize_le : headerSize ≤ p.offset
  /-- Tags are aligned. -/
  aligned : p.offset % Bytes.tagAlignment = 0

/-- `next` is where the tag behind `p` starts, and `p` is one that a tag can follow. -/
structure Follows (next p : TagPosition) : Prop where
  /-- No tag follows a closing one. -/
  kind_ne : p.kind ≠ .closing
  /-- No tag follows one that is smaller than its header. -/
  size_le : tagHeaderSize ≤ p.size.toNat
  /-- The tags lie as close as the alignment lets them. -/
  offset_eq : next.offset = p.offset + Bytes.aligned p.size.toNat
  /-- The cursor moves on. -/
  offset_lt : p.offset < next.offset

end TagPosition

/-- The region holds the tag at `p`, and its bytes there are the header of `p`. -/
structure Region.Holds (region : Region) (p : TagPosition) : Prop where
  placed : p.Placed
  /-- The header lies inside the region. -/
  header_le : p.offset + tagHeaderSize ≤ region.bytes.size
  /-- So do all bytes that the tag declares. -/
  finish_le : p.offset + p.size.toNat ≤ region.bytes.size
  /-- The kind is the one that its code stands for. -/
  kind_eq : TagKind.ofCode p.kind.code = p.kind
  /-- The header is what the bytes of the region say. -/
  bytes_eq : region.bytes.extract p.offset (p.offset + tagHeaderSize) = p.header.encode

namespace Region

/-! ### A chain of positions -/

/-- One step keeps positions in place: from a position that is placed like a tag, `nextTag` goes to
one that is. -/
theorem placed_of_nextTag {region : Region} {current : Option TagPosition} {p : TagPosition}
    (hcurrent : ∀ q, current = some q → q.Placed) (h : region.nextTag current = some p) :
    p.Placed := by
  obtain ⟨hoffset, -⟩ := nextTag_eq_some.mp h
  cases current with
  | none =>
      -- The first tag follows the header, whose size is a multiple of eight.
      have hstart : p.offset = headerSize := hoffset
      exact ⟨Nat.le_of_eq hstart.symm, by rw [hstart]; decide⟩
  | some q =>
      obtain ⟨hle, haligned⟩ := hcurrent q rfl
      obtain ⟨-, -, -, hnext⟩ := TagPosition.following?_eq_some.mp hoffset
      -- The size was rounded up, so two multiples of the alignment are added.
      have hsize := Bytes.aligned_mod q.size.toNat
      refine ⟨by omega, ?_⟩
      simp only [Bytes.tagAlignment] at haligned ⊢
      omega

/-- Every position that was handed out along a chain, by whatever regions, is placed like a tag. -/
theorem Handed.placed {regions : List Region} {current : Option TagPosition}
    (h : Handed regions current) : ∀ q, current = some q → q.Placed := by
  -- Each step may be one of another region; only the offset is carried along.
  induction h with
  | start =>
      intro q hq
      cases hq
  | next _ _ hnext ih =>
      intro q hq
      cases hq
      exact placed_of_nextTag ih hnext

/-- Behind a position the cursor goes on by the size of its tag, rounded up to the alignment. -/
theorem follows_of_nextTag {region : Region} {q p : TagPosition}
    (h : region.nextTag (some q) = some p) : p.Follows q := by
  have hfollowing : q.following? = some p.offset := (nextTag_eq_some.mp h).1
  obtain ⟨hkind, hsize, -, hoffset⟩ := TagPosition.following?_eq_some.mp hfollowing
  exact ⟨hkind, hsize, hoffset, nextTag_offset_lt h⟩

/-- Take a cursor that was handed along any chain of regions, and a region whose `nextTag` takes it
one step further. Then that region `Holds` the new position, which is aligned, lies inside it and
has the header that the bytes say; and the position follows the one that it was reached from by
exactly the rounded size. -/
theorem nextTag_holds {regions : List Region} {region : Region} {current : Option TagPosition}
    {p : TagPosition} (hcurrent : Handed regions current)
    (h : region.nextTag current = some p) :
    region.Holds p ∧ ∀ q, current = some q → p.Follows q := by
  obtain ⟨-, hposition⟩ := nextTag_eq_some.mp h
  obtain ⟨-, hread, hfinish⟩ := positionAt?_eq_some.mp hposition
  obtain ⟨hheader, hkind, hbytes⟩ := TagHeader.read?_eq_some.mp hread
  -- All but the place is checked by the region that hands the position out.
  constructor
  · exact {
      placed := placed_of_nextTag hcurrent.placed h
      header_le := hheader
      finish_le := hfinish
      kind_eq := hkind
      bytes_eq := hbytes
    }
  · intro q hq
    rw [hq] at h
    exact follows_of_nextTag h

/-- A region of forty bytes with a vendor's tag of eleven bytes in it. -/
def vendorRegion : Region where
  header := ⟨regionMagic, 40, 1, 0⟩
  bytes :=
    [0x4B, 0x4F, 0x42, 0x44, 40, 0, 0, 0, 1, 0, 0, 0, 0, 0, 0, 0,
      0x00, 0x80, 0, 0, 11, 0, 0, 0, 1, 2, 3, 0, 0, 0, 0, 0,
      0x00, 0x00, 0, 0, 8, 0, 0, 0].toByteArray
  size_bytes := by decide
  minTotalSize_le := by decide

/-- A region of forty-one bytes whose own tags end before its offset 32. -/
def closedRegion : Region where
  header := ⟨regionMagic, 41, 1, 0⟩
  bytes :=
    [0x4B, 0x4F, 0x42, 0x44, 41, 0, 0, 0, 1, 0, 0, 0, 0, 0, 0, 0,
      0x00, 0x00, 0, 0, 8, 0, 0, 0, 0, 0, 0, 0, 0, 0, 0, 0,
      0x05, 0x00, 7, 0, 9, 0, 0, 0, 0xFF].toByteArray
  size_bytes := by decide
  minTotalSize_le := by decide

/-- Take the first position of `vendorRegion` and carry it over to `closedRegion`. Then
`nextTag_holds` still applies: the next position lies behind the closing tag of the latter, but
inside it. -/
theorem nextTag_holds_carried :
    Handed [vendorRegion, closedRegion] (some ⟨16, ⟨.vendor 0x8000, 0, 11⟩⟩) ∧
      closedRegion.nextTag (some ⟨16, ⟨.vendor 0x8000, 0, 11⟩⟩) = some ⟨32, ⟨.acpiRoot, 7, 9⟩⟩ ∧
        closedRegion.Holds ⟨32, ⟨.acpiRoot, 7, 9⟩⟩ ∧
          TagPosition.Follows ⟨32, ⟨.acpiRoot, 7, 9⟩⟩ ⟨16, ⟨.vendor 0x8000, 0, 11⟩⟩ := by
  have hfirst : vendorRegion.nextTag none = some ⟨16, ⟨.vendor 0x8000, 0, 11⟩⟩ := by decide
  have hsecond : closedRegion.nextTag (some ⟨16, ⟨.vendor 0x8000, 0, 11⟩⟩) =
      some ⟨32, ⟨.acpiRoot, 7, 9⟩⟩ := by decide
  have hhanded : Handed [vendorRegion, closedRegion] (some ⟨16, ⟨.vendor 0x8000, 0, 11⟩⟩) :=
    .next (by simp) .start hfirst
  obtain ⟨hholds, hfollows⟩ := nextTag_holds hhanded hsecond
  exact ⟨hhanded, hsecond, hholds, hfollows _ rfl⟩

end Region

end EarlyBoot

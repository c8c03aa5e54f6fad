import EarlyBoot.Proofs.Bytes.Stretch
import EarlyBoot.Proofs.Record.Accepted

/-!
# `EarlyBoot.Proofs.Record.Fixed`: records of fixed form

A framebuffer, a root of the firmware tables and a ramdisk have no entries: their fields
stand at fixed offsets, and some of them must not be zero. `FixedLayout` is such a table
of fields, with the number of bytes it takes, and its `verdict` is what a tag with these
fields comes to. `Exact` says that a decoder follows its table and nothing else.

A decoder reads field by field, and each reader refuses the tag if its field does not
fit, with the same reason as the size check. That branch is never taken behind the size
check. To say so, the part of a decoder behind the check is named (`ofFields`), and run
with a wrong least size: if any reader gave up, this number would show in the reason.

Main statements:

* `AcpiRoot.follows_fixedLayout`, `Ramdisk.follows_fixedLayout`,
  `Framebuffer.follows_fixedLayout` : the three decoders follow their tables;
* `FixedLayout.Follows.decode_of_at` : what becomes of a tag whose fields are known;
* `FixedLayout.Follows.exact` : a decoder that follows its table is exact;
* `fixed_decoders_exact` : the three decoders are exact.
-/

set_option autoImplicit false

namespace EarlyBoot

open Bytes (le32 le64)

/-! ### Tables of fields -/

/-- The fields of a record of fixed form: each string of `least` bytes or more has them. -/
structure FixedLayout (Values Record : Type) where
  /-- Size of the smallest tag that has all fields. -/
  least : Nat
  /-- The fields of a byte string. -/
  At : ByteArray → Values → Prop
  /-- The fields that must not be zero, in the order in which they are checked, and whether
  they are. -/
  required : List (RequiredField × (Values → Bool))
  record : RawTag → Values → Record
  exists_at : ∀ {bytes : ByteArray}, least ≤ bytes.size → ∃ values, At bytes values
  /-- The fields are among the first bytes. -/
  at_congr : ∀ {bytes bytes' : ByteArray} {values : Values},
    bytes.extract 0 least = bytes'.extract 0 least → At bytes values → At bytes' values

namespace FixedLayout

variable {Values Record : Type}

/-- What a tag with these fields comes to: it is refused for the first required field that
is zero, or accepted. -/
def verdict (layout : FixedLayout Values Record) (tag : RawTag) (values : Values) :
    Except TagRejection Record :=
  match layout.required.find? fun field => field.2 values with
  | some field => .error (.zero field.1)
  | none       => .ok (layout.record tag values)

/-- A decoder that accepts exactly the tags of its layout, behind whose size check
`ofFields` is left to do. -/
structure Exact (layout : FixedLayout Values Record)
    (decode : RawTag → Except TagRejection Record)
    (ofFields : Fields → Except TagRejection Record) : Prop where
  /-- A tag is called too small exactly if it is. -/
  tooSmall_iff : ∀ tag,
    decode tag = .error (.tooSmall tag.size layout.least) ↔ tag.size.toNat < layout.least
  /-- A tag that is not too small has fields, and these decide. -/
  eq_verdict : ∀ tag, layout.least ≤ tag.size.toNat →
    ∃ values, layout.At tag.bytes values ∧ decode tag = layout.verdict tag values
  /-- What follows the fields makes no difference. -/
  beyond : ∀ tag tag', layout.least ≤ tag.size.toNat → layout.least ≤ tag'.size.toNat →
    tag.bytes.extract 0 layout.least = tag'.bytes.extract 0 layout.least →
    ∃ values, decode tag = layout.verdict tag values ∧ decode tag' = layout.verdict tag' values
  /-- The decoder is the size check with `ofFields` behind it. -/
  eq_bind : ∀ tag, decode tag = tag.fields layout.least >>= ofFields
  /-- Behind the size check no reader calls the tag too small, by whatever number. -/
  readers : ∀ tag min, layout.least ≤ tag.size.toNat → ofFields { tag, min } = decode tag

/-- A decoder that checks the size and makes of the fields what its layout says. -/
structure Follows (layout : FixedLayout Values Record)
    (decode : RawTag → Except TagRejection Record)
    (ofFields : Fields → Except TagRejection Record) : Prop where
  eq_bind : ∀ tag, decode tag = tag.fields layout.least >>= ofFields
  ofFields_of_at : ∀ {f : Fields} {values : Values}, layout.least ≤ f.tag.size.toNat →
    layout.At f.tag.bytes values → ofFields f = layout.verdict f.tag values

variable {layout : FixedLayout Values Record} {decode : RawTag → Except TagRejection Record}
  {ofFields : Fields → Except TagRejection Record} {tag : RawTag} {values : Values}

/-- A tag that is large enough for a layout has some values at the offsets of the layout. -/
theorem exists_at_tag (h : layout.least ≤ tag.size.toNat) :
    ∃ values, layout.At tag.bytes values :=
  layout.exists_at (Nat.le_trans h tag.le_size_bytes)

/-- The required fields of a layout are checked one after the other, in the order of the table: the
first that is zero decides. -/
theorem verdict_eq_foldr (layout : FixedLayout Values Record) (tag : RawTag) (values : Values) :
    layout.verdict tag values =
      layout.required.foldr
        (fun field rest => if field.2 values then .error (.zero field.1) else rest)
        (.ok (layout.record tag values)) := by
  unfold verdict
  induction layout.required with
  | nil => rfl
  | cons field fields ih =>
      rw [List.find?_cons, List.foldr_cons, ← ih]
      cases field.2 values <;> rfl

/-- No verdict is that the tag is too small; that is decided before the fields are looked at. -/
theorem verdict_ne_tooSmall (layout : FixedLayout Values Record) (tag : RawTag)
    (values : Values) (size : UInt32) (min : Nat) :
    layout.verdict tag values ≠ .error (.tooSmall size min) := by
  unfold verdict
  intro h
  split at h <;> cases h

namespace Follows

/-- Take a decoder that follows a layout, and a tag that is large enough. Then the values at the
offsets of the layout decide what the tag is decoded to. -/
theorem decode_of_at (h : layout.Follows decode ofFields) (hsize : layout.least ≤ tag.size.toNat)
    (hat : layout.At tag.bytes values) : decode tag = layout.verdict tag values := by
  rw [h.eq_bind, RawTag.fields_of_le hsize, ok_bind]
  exact h.ofFields_of_at hsize hat

/-- A decoder that follows a layout is `Exact` for it: what it accepts, what it refuses and why, and
the record it returns are all read off the table. -/
theorem exact (h : layout.Follows decode ofFields) : layout.Exact decode ofFields where
  tooSmall_iff tag := by
    constructor
    · intro herror
      refine Nat.lt_of_not_le fun hsize => ?_
      obtain ⟨values, hat⟩ := exists_at_tag hsize
      rw [h.decode_of_at hsize hat] at herror
      exact layout.verdict_ne_tooSmall tag values _ _ herror
    · intro hsize
      rw [h.eq_bind, RawTag.fields_of_lt hsize]
      rfl
  eq_verdict tag hsize := by
    obtain ⟨values, hat⟩ := exists_at_tag hsize
    exact ⟨values, hat, h.decode_of_at hsize hat⟩
  beyond tag tag' hsize hsize' hbytes := by
    obtain ⟨values, hat⟩ := exists_at_tag hsize
    have hat' := layout.at_congr hbytes hat
    exact ⟨values, h.decode_of_at hsize hat, h.decode_of_at hsize' hat'⟩
  eq_bind := h.eq_bind
  readers tag min hsize := by
    obtain ⟨values, hat⟩ := exists_at_tag hsize
    rw [h.decode_of_at hsize hat]
    exact h.ofFields_of_at (f := { tag, min }) hsize hat

end Follows

end FixedLayout

/-! ### The root of the firmware tables -/

namespace AcpiRoot

def fixedLayout : FixedLayout UInt64 AcpiRoot where
  least := 16
  At bytes address := bytes.extract 8 16 = le64 address
  required := [(.rsdpAddress, (· = 0))]
  record tag address := { tag, address }
  exists_at h := Bytes.exists_le64 _ 8 h
  at_congr h hat := (Bytes.extract_eq_of_extract_zero h (by decide)).symm.trans hat

/-- `decode` behind its size check. -/
def ofFields (fields : Fields) : Except TagRejection AcpiRoot := do
  let address ← fields.uint64 8
  requireNonzero address .rsdpAddress
  return { tag := fields.tag, address }

/-- The address of the root is the one field that must not be zero. -/
theorem verdict_eq (tag : RawTag) (address : UInt64) :
    fixedLayout.verdict tag address =
      if address = 0 then .error (.zero .rsdpAddress) else .ok { tag, address } := by
  rw [FixedLayout.verdict_eq_foldr]
  simp only [fixedLayout, List.foldr_cons, List.foldr_nil, decide_eq_true_eq]

/-- The decoder of the ACPI root reads the fields that its layout lists, in that order. -/
theorem follows_fixedLayout : fixedLayout.Follows decode ofFields where
  eq_bind _ := RawTag.fields_bind_congr rfl
  ofFields_of_at hsize hat := by
    rw [ofFields, Fields.uint64_of_extract hsize hat, ok_bind, requireNonzero_bind, verdict_eq]
    rfl

end AcpiRoot

/-! ### The ramdisk -/

namespace Ramdisk

def fixedLayout : FixedLayout (UInt64 × UInt64) Ramdisk where
  least := 24
  At bytes := fun (start, length) =>
    bytes.extract 8 16 = le64 start ∧ bytes.extract 16 24 = le64 length
  required := [(.ramdiskStart, (·.1 = 0)), (.ramdiskLength, (·.2 = 0))]
  record tag := fun (start, length) => { tag, start, length }
  exists_at {bytes} h := by
    obtain ⟨start, hstart⟩ := Bytes.exists_le64 bytes 8 (by omega)
    obtain ⟨length, hlength⟩ := Bytes.exists_le64 bytes 16 h
    exact ⟨(start, length), hstart, hlength⟩
  at_congr h hat :=
    ⟨(Bytes.extract_eq_of_extract_zero h (by decide)).symm.trans hat.1,
      (Bytes.extract_eq_of_extract_zero h (by decide)).symm.trans hat.2⟩

/-- `decode` behind its size check. -/
def ofFields (fields : Fields) : Except TagRejection Ramdisk := do
  let start ← fields.uint64 8
  let length ← fields.uint64 16
  requireNonzero start .ramdiskStart
  requireNonzero length .ramdiskLength
  return { tag := fields.tag, start, length }

/-- The start and then the length of a ramdisk must not be zero. -/
theorem verdict_eq (tag : RawTag) (start length : UInt64) :
    fixedLayout.verdict tag (start, length) =
      if start = 0 then .error (.zero .ramdiskStart)
      else if length = 0 then .error (.zero .ramdiskLength)
      else .ok { tag, start, length } := by
  rw [FixedLayout.verdict_eq_foldr]
  simp only [fixedLayout, List.foldr_cons, List.foldr_nil, decide_eq_true_eq]

/-- The decoder of the ramdisk reads the fields that its layout lists, in that order. -/
theorem follows_fixedLayout : fixedLayout.Follows decode ofFields where
  eq_bind _ := RawTag.fields_bind_congr rfl
  ofFields_of_at {f values} hsize hat := by
    obtain ⟨start, length⟩ := values
    obtain ⟨hstart, hlength⟩ := hat
    have hsize : 24 ≤ f.tag.size.toNat := hsize
    rw [ofFields, Fields.uint64_of_extract (by omega) hstart, ok_bind,
      Fields.uint64_of_extract hsize hlength, ok_bind, requireNonzero_bind,
      requireNonzero_bind, verdict_eq]
    rfl

end Ramdisk

/-! ### The framebuffer -/

namespace Framebuffer

/-- The two bytes of a channel stand at `offset`. -/
def ChannelAt (bytes : ByteArray) (offset : Nat) (channel : Channel) : Prop :=
  bytes[offset]? = some channel.shift ∧ bytes[offset + 1]? = some channel.size

/-- The bytes of a framebuffer tag are those of a mode. -/
structure ModeAt (bytes : ByteArray) (mode : ScreenMode) : Prop where
  address : bytes.extract 8 16 = le64 mode.address
  width : bytes.extract 16 20 = le32 mode.width
  height : bytes.extract 20 24 = le32 mode.height
  pitch : bytes.extract 24 28 = le32 mode.pitch
  depth : bytes[28]? = some mode.depth
  red : ChannelAt bytes 29 mode.layout.red
  green : ChannelAt bytes 31 mode.layout.green
  blue : ChannelAt bytes 33 mode.layout.blue
  reserved : ChannelAt bytes 35 mode.layout.reserved

/-- Two bytes are the numbers of some channel. -/
theorem exists_channelAt (bytes : ByteArray) (offset : Nat) (h : offset + 2 ≤ bytes.size) :
    ∃ channel, ChannelAt bytes offset channel :=
  ⟨⟨bytes[offset], bytes[offset + 1]⟩, getElem?_pos bytes offset (by omega),
    getElem?_pos bytes (offset + 1) (by omega)⟩

/-- Forty bytes are the fields of some framebuffer. -/
theorem exists_modeAt {bytes : ByteArray} (h : 40 ≤ bytes.size) : ∃ mode, ModeAt bytes mode := by
  obtain ⟨address, haddress⟩ := Bytes.exists_le64 bytes 8 (by omega)
  obtain ⟨width, hwidth⟩ := Bytes.exists_le32 bytes 16 (by omega)
  obtain ⟨height, hheight⟩ := Bytes.exists_le32 bytes 20 (by omega)
  obtain ⟨pitch, hpitch⟩ := Bytes.exists_le32 bytes 24 (by omega)
  obtain ⟨red, hred⟩ := exists_channelAt bytes 29 (by omega)
  obtain ⟨green, hgreen⟩ := exists_channelAt bytes 31 (by omega)
  obtain ⟨blue, hblue⟩ := exists_channelAt bytes 33 (by omega)
  obtain ⟨reserved, hreserved⟩ := exists_channelAt bytes 35 (by omega)
  exact ⟨⟨address, width, height, pitch, bytes[28], ⟨red, green, blue, reserved⟩⟩, haddress,
    hwidth, hheight, hpitch, getElem?_pos bytes 28 (by omega), hred, hgreen, hblue, hreserved⟩

/-- The fields of a framebuffer are among the first 40 bytes, so what comes behind does not
matter. -/
theorem ModeAt.congr {bytes bytes' : ByteArray} {mode : ScreenMode}
    (h : bytes.extract 0 40 = bytes'.extract 0 40) (hat : ModeAt bytes mode) :
    ModeAt bytes' mode := by
  -- Every field lies within the first forty bytes, as a stretch or as a single byte.
  have hstretch (start finish : Nat) (hfinish : finish ≤ 40) :
      bytes'.extract start finish = bytes.extract start finish :=
    Bytes.extract_eq_of_extract_zero h.symm hfinish
  have hbyte (i : Nat) (hi : i < 40) : bytes'[i]? = bytes[i]? := by
    have hfirst := congrArg (·[i]?) h
    simp only [Bytes.getElem?_extract_zero, if_pos hi] at hfirst
    exact hfirst.symm
  have hchannel (offset : Nat) (channel : Channel) (hoffset : offset + 1 < 40)
      (hat : ChannelAt bytes offset channel) : ChannelAt bytes' offset channel :=
    ⟨(hbyte _ (by omega)).trans hat.1, (hbyte _ hoffset).trans hat.2⟩
  exact {
    address := (hstretch 8 16 (by decide)).trans hat.address
    width := (hstretch 16 20 (by decide)).trans hat.width
    height := (hstretch 20 24 (by decide)).trans hat.height
    pitch := (hstretch 24 28 (by decide)).trans hat.pitch
    depth := (hbyte 28 (by decide)).trans hat.depth
    red := hchannel 29 _ (by decide) hat.red
    green := hchannel 31 _ (by decide) hat.green
    blue := hchannel 33 _ (by decide) hat.blue
    reserved := hchannel 35 _ (by decide) hat.reserved
  }

def fixedLayout : FixedLayout ScreenMode Framebuffer where
  least := 40
  At := ModeAt
  required := [(.framebufferWidth, (·.width = 0)), (.framebufferHeight, (·.height = 0)),
    (.framebufferDepth, (·.depth = 0)), (.framebufferAddress, (·.address = 0))]
  record tag mode := { toScreenMode := mode, tag }
  exists_at := exists_modeAt
  at_congr := ModeAt.congr

/-- `decode` behind its size check. -/
def ofFields (fields : Fields) : Except TagRejection Framebuffer := do
  let address ← fields.uint64 8
  let width ← fields.uint32 16
  let height ← fields.uint32 20
  let pitch ← fields.uint32 24
  let depth ← fields.uint8 28
  let red ← channel fields 29
  let green ← channel fields 31
  let blue ← channel fields 33
  let reserved ← channel fields 35
  requireNonzero width .framebufferWidth
  requireNonzero height .framebufferHeight
  requireNonzero depth .framebufferDepth
  requireNonzero address .framebufferAddress
  return {
    tag := fields.tag, address, width, height, pitch, depth
    layout := { red, green, blue, reserved } }

/-- The channel at an offset is the one that the fields read there. -/
theorem channel_of_channelAt {f : Fields} {offset : Nat} {c : Channel}
    (h : ChannelAt f.tag.bytes offset c) : channel f offset = .ok c := by
  rw [channel, Fields.uint8_of_eq_some h.1, ok_bind, Fields.uint8_of_eq_some h.2, ok_bind]
  rfl

/-- The width, the height, the depth and the address of a framebuffer must not be zero, in this
order. -/
theorem verdict_eq (tag : RawTag) (mode : ScreenMode) :
    fixedLayout.verdict tag mode =
      if mode.width = 0 then .error (.zero .framebufferWidth)
      else if mode.height = 0 then .error (.zero .framebufferHeight)
      else if mode.depth = 0 then .error (.zero .framebufferDepth)
      else if mode.address = 0 then .error (.zero .framebufferAddress)
      else .ok { toScreenMode := mode, tag } := by
  rw [FixedLayout.verdict_eq_foldr]
  simp only [fixedLayout, List.foldr_cons, List.foldr_nil, decide_eq_true_eq]

/-- The decoder of the framebuffer reads the fields that its layout lists, in that order. -/
theorem follows_fixedLayout : fixedLayout.Follows decode ofFields where
  eq_bind _ := RawTag.fields_bind_congr rfl
  ofFields_of_at {f mode} hsize hat := by
    have hsize : 40 ≤ f.tag.size.toNat := hsize
    have hat : ModeAt f.tag.bytes mode := hat
    rw [ofFields, Fields.uint64_of_extract (by omega) hat.address, ok_bind,
      Fields.uint32_of_extract (by omega) hat.width, ok_bind,
      Fields.uint32_of_extract (by omega) hat.height, ok_bind,
      Fields.uint32_of_extract (by omega) hat.pitch, ok_bind,
      Fields.uint8_of_eq_some hat.depth, ok_bind, channel_of_channelAt hat.red, ok_bind,
      channel_of_channelAt hat.green, ok_bind, channel_of_channelAt hat.blue, ok_bind,
      channel_of_channelAt hat.reserved, ok_bind, requireNonzero_bind, requireNonzero_bind,
      requireNonzero_bind, requireNonzero_bind, verdict_eq]
    rfl

end Framebuffer

/-- The decoders of the framebuffer, the ACPI root and the ramdisk are `Exact` for their layouts,
which are tables of offsets written apart from the decoders. Nothing is asked of the tag: it may
stand anywhere in any region, and its kind may be another. -/
theorem fixed_decoders_exact :
    Framebuffer.fixedLayout.Exact Framebuffer.decode Framebuffer.ofFields ∧
    AcpiRoot.fixedLayout.Exact AcpiRoot.decode AcpiRoot.ofFields ∧
    Ramdisk.fixedLayout.Exact Ramdisk.decode Ramdisk.ofFields :=
  ⟨Framebuffer.follows_fixedLayout.exact, AcpiRoot.follows_fixedLayout.exact,
    Ramdisk.follows_fixedLayout.exact⟩

end EarlyBoot

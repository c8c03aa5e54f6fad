import EarlyBoot.Proofs.Record.Decoding
import EarlyBoot.Record.AcpiRoot
import EarlyBoot.Record.Framebuffer
import EarlyBoot.Record.MemoryMap
import EarlyBoot.Record.Processors
import EarlyBoot.Record.Ramdisk
import EarlyBoot.Record.Text

/-!
# `EarlyBoot.Proofs.Record.Accepted`: what an accepted record was decoded from

Each decoder keeps the tag that it was given, and accepts none that is smaller than
the format of its record. A slot of what is known is a kind of tag with such a decoder
(`Slot`), so that the slots can be spoken of alike.

Main statements:

* `MemoryMap.of_decode` and its siblings : an accepted record keeps its tag, which is
  as large as the format asks for;
* `MemoryMap.decode_of_head`, `Processors.decode_of_head` : whether a table is accepted, by
  the numbers in its head;
* `BootText.decode_of_lt`, `BootText.decode_of_mem`, `BootText.decode_of_not_mem` : the same
  for a text, by its NUL.
-/

set_option autoImplicit false

namespace EarlyBoot

/-- If `fields` gives access to a tag, then the tag declares at least the size that was asked
for. -/
theorem RawTag.le_of_fields {tag : RawTag} {min : Nat} {f : Fields} (h : tag.fields min = .ok f) :
    min ≤ tag.size.toNat := by
  refine Nat.le_of_not_lt fun hlt => ?_
  rw [RawTag.fields_of_lt hlt] at h
  cases h

/-- The check `requireNonzero` lets no zero pass. -/
theorem ne_zero_of_requireNonzero {α : Type} [OfNat α 0] [DecidableEq α] {value : α}
    {field : RequiredField} {passed : Unit} (h : requireNonzero value field = .ok passed) :
    value ≠ 0 := by
  intro hzero
  rw [requireNonzero, if_pos hzero] at h
  cases h

/-! ### The decoders -/

/-- Take a tag with room for the head of a memory map. Then the two numbers in the head decide:
entries that are too close are refused first, then entries that do not all fit, and anything else is
accepted. -/
theorem MemoryMap.decode_of_head {tag : RawTag} {entrySize entryCount : UInt32}
    (hhead : headSize ≤ tag.size.toNat)
    (hentrySize : Bytes.uint32? tag.bytes 8 = some entrySize)
    (hentryCount : Bytes.uint32? tag.bytes 12 = some entryCount) :
    decode tag =
      if entrySize.toNat < 24 then .error (.entrySizeTooSmall entrySize)
      else if tag.size.toNat < 16 + entryCount.toNat * entrySize.toNat then
        .error (.entriesOutOfBounds entrySize entryCount)
      else .ok { tag, entrySize, entryCount } := by
  have hsize : tag.bytes.size = tag.size.toNat := tag.size_bytes
  have hspan : entryCount.toNat * entrySize.toNat + headSize =
      16 + entryCount.toNat * entrySize.toNat := Nat.add_comm _ _
  rw [decode, RawTag.fields_of_le hhead, ok_bind, Fields.uint32_of_eq_some hentrySize, ok_bind,
    Fields.uint32_of_eq_some hentryCount, ok_bind, hsize, hspan]
  rfl

/-- A memory map that `decode` accepts keeps its tag, and the tag has room for the head. -/
theorem MemoryMap.of_decode {tag : RawTag} {map : MemoryMap} (h : decode tag = .ok map) :
    map.tag = tag ∧ headSize ≤ tag.size.toNat := by
  obtain ⟨fields, hfields, h⟩ := bind_eq_ok.mp h
  obtain ⟨entrySize, -, h⟩ := bind_eq_ok.mp h
  obtain ⟨entryCount, -, h⟩ := bind_eq_ok.mp h
  -- Two checks are left, and the record is made behind both.
  dsimp only at h
  split at h
  · cases h
  · split at h
    · cases h
    · cases h
      exact ⟨rfl, RawTag.le_of_fields hfields⟩

/-- A framebuffer that `decode` accepts keeps its tag, which is large enough; its width, height,
depth and address are not zero. -/
theorem Framebuffer.checked_of_decode {tag : RawTag} {fb : Framebuffer} (h : decode tag = .ok fb) :
    (fb.tag = tag ∧ tagSize ≤ tag.size.toNat) ∧
      fb.width ≠ 0 ∧ fb.height ≠ 0 ∧ fb.depth ≠ 0 ∧ fb.address ≠ 0 := by
  obtain ⟨fields, hfields, h⟩ := bind_eq_ok.mp h
  obtain ⟨address, -, h⟩ := bind_eq_ok.mp h
  obtain ⟨width, -, h⟩ := bind_eq_ok.mp h
  obtain ⟨height, -, h⟩ := bind_eq_ok.mp h
  obtain ⟨pitch, -, h⟩ := bind_eq_ok.mp h
  obtain ⟨depth, -, h⟩ := bind_eq_ok.mp h
  obtain ⟨red, -, h⟩ := bind_eq_ok.mp h
  obtain ⟨green, -, h⟩ := bind_eq_ok.mp h
  obtain ⟨blue, -, h⟩ := bind_eq_ok.mp h
  obtain ⟨reserved, -, h⟩ := bind_eq_ok.mp h
  -- The nine fields are read; what is left are the four conditions.
  obtain ⟨⟨⟩, hwidth, h⟩ := bind_eq_ok.mp h
  obtain ⟨⟨⟩, hheight, h⟩ := bind_eq_ok.mp h
  obtain ⟨⟨⟩, hdepth, h⟩ := bind_eq_ok.mp h
  obtain ⟨⟨⟩, haddress, h⟩ := bind_eq_ok.mp h
  cases h
  exact ⟨⟨rfl, RawTag.le_of_fields hfields⟩, ne_zero_of_requireNonzero hwidth,
    ne_zero_of_requireNonzero hheight, ne_zero_of_requireNonzero hdepth,
    ne_zero_of_requireNonzero haddress⟩

/-- A framebuffer that `decode` accepts keeps its tag, and the tag is large enough. -/
theorem Framebuffer.of_decode {tag : RawTag} {fb : Framebuffer} (h : decode tag = .ok fb) :
    fb.tag = tag ∧ tagSize ≤ tag.size.toNat :=
  (checked_of_decode h).1

/-- Take a tag of fewer than nine bytes, which has no room for a NUL behind its header. Then
`decode` refuses it as too small. -/
theorem BootText.decode_of_lt {tag : RawTag} (h : tag.size.toNat < 9) :
    decode tag = .error (.tooSmall tag.size 9) := by
  have hlt : tag.bytes.size < minTagSize := by
    rw [tag.size_bytes]
    exact h
  rw [decode, RawTag.requireSize, if_pos hlt]
  rfl

/-- In a list with a NUL, the first NUL stands behind all bytes in front that are none. -/
theorem findIdx?_zero {l : List UInt8} (h : 0 ∈ l) :
    l.findIdx? (· == 0) = some (l.takeWhile (· ≠ 0)).length := by
  induction l with
  | nil => cases h
  | cons a l ih =>
      rw [List.findIdx?_cons]
      by_cases ha : a = 0
      · simp [ha]
      · have hl : 0 ∈ l := (List.mem_cons.mp h).resolve_left (Ne.symm ha)
        simp [ha, ih hl]

/-- Take a payload with a NUL. Then `decode` accepts the tag, with the bytes in front of the first
NUL. -/
theorem BootText.decode_of_mem {tag : RawTag} (h : 0 ∈ tag.payload.data.toList) :
    decode tag =
      .ok { tag, bytes := (tag.payload.data.toList.takeWhile (· ≠ 0)).toByteArray } := by
  -- A payload with a byte in it is long enough for a text tag.
  have hsize : minTagSize ≤ tag.size.toNat := by
    have hpos := List.length_pos_of_mem h
    rw [Array.length_toList, ByteArray.size_data, RawTag.payload, ByteArray.size_extract,
      tag.size_bytes] at hpos
    simp only [RawTag.size, minTagSize, tagHeaderSize] at hpos ⊢
    omega
  have hfind : tag.payload.data.findIdx? (· == 0) =
      some (tag.payload.data.toList.takeWhile (· ≠ 0)).length := by
    rw [← findIdx?_zero h, ← List.findIdx?_toArray, Array.toArray_toList]
  have hbytes : tag.payload.extract 0 (tag.payload.data.toList.takeWhile (· ≠ 0)).length =
      (tag.payload.data.toList.takeWhile (· ≠ 0)).toByteArray := by
    apply ByteArray.ext
    apply Array.toList_inj.mp
    rw [ByteArray.data_extract, Array.toList_extract, List.data_toByteArray, List.toList_toArray,
      List.extract_eq_take_drop, List.drop_zero, Nat.sub_zero]
    exact (List.prefix_iff_eq_take.mp (List.takeWhile_prefix _)).symm
  rw [decode, RawTag.requireSize_eq_ok.mpr hsize, ok_bind, hfind, ← hbytes]
  rfl

/-- Take a payload without a NUL, of a tag that is not too small. Then `decode` refuses it as
unterminated. -/
theorem BootText.decode_of_not_mem {tag : RawTag} (hsize : 9 ≤ tag.size.toNat)
    (h : 0 ∉ tag.payload.data.toList) : decode tag = .error .unterminated := by
  have hfind : tag.payload.data.findIdx? (· == 0) = none := by
    rw [Array.findIdx?_eq_none_iff]
    intro b hb
    exact beq_false_of_ne fun hzero => h (hzero ▸ hb.val)
  rw [decode, RawTag.requireSize_eq_ok.mpr (show minTagSize ≤ tag.size.toNat from hsize), ok_bind,
    hfind]
  rfl

/-- A text that `decode` accepts keeps its tag, and the tag has room for a NUL. -/
theorem BootText.of_decode {tag : RawTag} {text : BootText} (h : decode tag = .ok text) :
    text.tag = tag ∧ minTagSize ≤ tag.size.toNat := by
  obtain ⟨⟨⟩, hsize, h⟩ := bind_eq_ok.mp h
  -- Without a NUL there is no text.
  split at h
  · cases h
    exact ⟨rfl, RawTag.requireSize_eq_ok.mp hsize⟩
  · cases h

/-- A root that `decode` accepts keeps its tag, and the tag is large enough. -/
theorem AcpiRoot.of_decode {tag : RawTag} {root : AcpiRoot} (h : decode tag = .ok root) :
    root.tag = tag ∧ tagSize ≤ tag.size.toNat := by
  obtain ⟨fields, hfields, h⟩ := bind_eq_ok.mp h
  obtain ⟨address, -, h⟩ := bind_eq_ok.mp h
  obtain ⟨-, -, h⟩ := bind_eq_ok.mp h
  cases h
  exact ⟨rfl, RawTag.le_of_fields hfields⟩

/-- Take a tag with room for the head of a list of processors. Then the first number in the head
decides: no processors are refused, and anything else is accepted. -/
theorem Processors.decode_of_head {tag : RawTag} {count bootId : UInt32}
    (hhead : headSize ≤ tag.size.toNat)
    (hcount : Bytes.uint32? tag.bytes 8 = some count)
    (hbootId : Bytes.uint32? tag.bytes 12 = some bootId) :
    decode tag =
      if count = 0 then .error (.zero .processorCount) else .ok { tag, count, bootId } := by
  rw [decode, RawTag.fields_of_le hhead, ok_bind, Fields.uint32_of_eq_some hcount, ok_bind,
    Fields.uint32_of_eq_some hbootId, ok_bind, requireNonzero_bind]
  rfl

/-- A list of processors that `decode` accepts keeps its tag, which has room for the head, and
counts one processor at least. -/
theorem Processors.of_decode {tag : RawTag} {processors : Processors}
    (h : decode tag = .ok processors) :
    (processors.tag = tag ∧ headSize ≤ tag.size.toNat) ∧ processors.count ≠ 0 := by
  obtain ⟨fields, hfields, h⟩ := bind_eq_ok.mp h
  obtain ⟨count, -, h⟩ := bind_eq_ok.mp h
  obtain ⟨bootId, -, h⟩ := bind_eq_ok.mp h
  rw [requireNonzero_bind] at h
  split at h
  · cases h
  · rename_i hcount
    cases h
    exact ⟨⟨rfl, RawTag.le_of_fields hfields⟩, hcount⟩

/-- A ramdisk that `decode` accepts keeps its tag, and the tag is large enough. -/
theorem Ramdisk.of_decode {tag : RawTag} {ramdisk : Ramdisk} (h : decode tag = .ok ramdisk) :
    ramdisk.tag = tag ∧ tagSize ≤ tag.size.toNat := by
  obtain ⟨fields, hfields, h⟩ := bind_eq_ok.mp h
  obtain ⟨start, -, h⟩ := bind_eq_ok.mp h
  obtain ⟨length, -, h⟩ := bind_eq_ok.mp h
  obtain ⟨-, -, h⟩ := bind_eq_ok.mp h
  obtain ⟨-, -, h⟩ := bind_eq_ok.mp h
  cases h
  exact ⟨rfl, RawTag.le_of_fields hfields⟩

/-! ### The slots -/

/-- What a slot is filled from: tags of one kind, decoded to records of one type. -/
structure Slot (α : Type) where
  kind : TagKind
  decode : RawTag → Except TagRejection α
  /-- The tag that a record was decoded from. -/
  tag : α → RawTag
  /-- Size of the smallest tag that is accepted. -/
  least : Nat
  /-- A record keeps its tag, which is not too small. -/
  of_decode : ∀ {source : RawTag} {view : α}, decode source = .ok view →
    tag view = source ∧ least ≤ source.size.toNat

namespace Slot

def memoryMap : Slot MemoryMap where
  kind := .memoryMap
  decode := MemoryMap.decode
  tag := MemoryMap.tag
  least := MemoryMap.headSize
  of_decode := MemoryMap.of_decode

def framebuffer : Slot Framebuffer where
  kind := .framebuffer
  decode := Framebuffer.decode
  tag := Framebuffer.tag
  least := Framebuffer.tagSize
  of_decode := Framebuffer.of_decode

/-- Two slots hold texts. -/
def text (kind : TagKind) : Slot BootText where
  kind
  decode := BootText.decode
  tag := BootText.tag
  least := BootText.minTagSize
  of_decode := BootText.of_decode

def acpiRoot : Slot AcpiRoot where
  kind := .acpiRoot
  decode := AcpiRoot.decode
  tag := AcpiRoot.tag
  least := AcpiRoot.tagSize
  of_decode := AcpiRoot.of_decode

def processors : Slot Processors where
  kind := .processors
  decode := Processors.decode
  tag := Processors.tag
  least := Processors.headSize
  of_decode h := (Processors.of_decode h).1

def ramdisk : Slot Ramdisk where
  kind := .ramdisk
  decode := Ramdisk.decode
  tag := Ramdisk.tag
  least := Ramdisk.tagSize
  of_decode := Ramdisk.of_decode

end Slot

end EarlyBoot

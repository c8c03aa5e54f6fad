import EarlyBoot.BootInfo.Contents
import EarlyBoot.Proofs.Iteration.Draws
import EarlyBoot.Proofs.Record.Fixed

/-!
# `EarlyBoot.Proofs.Record.Written`: decoding a record that was written

A record is written as the payload of a tag. For each record it is said here what
its decoder makes of a tag that carries the payload of the writer, for all arguments:
also for those that it refuses, and with the reason.

Memory maps and lists of processors have entries, which a cursor hands out. The
cursor finds entry `i` at the place that `i` says, because all entries that were
written in front of it have the same size.

Main statements:

* `MemoryMap.decode_carries`, `MemoryMap.entries_carries` : a memory map, whatever
  the distance between its ranges;
* `Framebuffer.decode_carries`, `BootText.decode_carries`, `AcpiRoot.decode_carries`,
  `Ramdisk.decode_carries` : the records of fixed form, and texts;
* `Processors.decode_carries`, `Processors.entries_carries` : a list of processors.
-/

set_option autoImplicit false

namespace EarlyBoot

open Bytes (joined le32 le64)

/-! ### Addresses -/

section Addresses

variable {tag : RawTag}

/-- Take a tag that carries the address of a root. Then `decode` accepts it unless the address is
zero. -/
theorem AcpiRoot.decode_carries {address : UInt64} (h : tag.Carries (le64 address)) :
    AcpiRoot.decode tag =
      if address = 0 then .error (.zero .rsdpAddress) else .ok { tag, address } := by
  have hsize : 16 ≤ tag.size.toNat := by
    simp [h.toNat_size, tagHeaderSize]
  have haddress : Bytes.uint64? tag.bytes 8 = some address := by
    rw [h.uint64? (Nat.le_refl 8)]
    exact Bytes.uint64?_le64 address
  rw [follows_fixedLayout.decode_of_at hsize (Bytes.uint64?_eq_some.mp haddress).2, verdict_eq]

/-- Take a tag that carries the start and the length of a ramdisk. Then `decode` accepts it unless
one of them is zero. -/
theorem Ramdisk.decode_carries {start length : UInt64}
    (h : tag.Carries (le64 start ++ le64 length)) :
    Ramdisk.decode tag =
      if start = 0 then .error (.zero .ramdiskStart)
      else if length = 0 then .error (.zero .ramdiskLength)
      else .ok { tag, start, length } := by
  have hsize : 24 ≤ tag.size.toNat := by
    simp [h.toNat_size, tagHeaderSize]
  have hstart : Bytes.uint64? tag.bytes 8 = some start := by
    rw [h.uint64? (Nat.le_refl 8)]
    exact Bytes.uint64?_le64_append start (le64 length)
  have hlength : Bytes.uint64? tag.bytes 16 = some length := by
    rw [h.uint64? (by decide), Bytes.uint64?_append_right (by simp [tagHeaderSize]),
      Bytes.size_le64]
    exact Bytes.uint64?_le64 length
  -- Both words are where the layout has them, so the verdict is a matter of their values.
  have hat : fixedLayout.At tag.bytes (start, length) :=
    ⟨(Bytes.uint64?_eq_some.mp hstart).2, (Bytes.uint64?_eq_some.mp hlength).2⟩
  rw [follows_fixedLayout.decode_of_at hsize hat, verdict_eq]

end Addresses

/-! ### Texts -/

/-- A NUL at the end does not change what stands in front of the first NUL. -/
theorem takeWhile_append_zero (l : List UInt8) :
    (l ++ [0]).takeWhile (· ≠ 0) = l.takeWhile (· ≠ 0) := by
  induction l with
  | nil => rfl
  | cons a l ih => rw [List.cons_append, List.takeWhile_cons, List.takeWhile_cons, ih]

/-- Take a tag that carries a text and a NUL behind it. Then `decode` accepts it, with the bytes in
front of the first NUL, which may be one inside the text. -/
theorem BootText.decode_carries {tag : RawTag} {content : String}
    (h : tag.Carries (content.toUTF8.push 0)) :
    BootText.decode tag = .ok { tag, bytes := Contents.textBytes content } := by
  have hpayload : tag.payload.data.toList = content.toUTF8.data.toList ++ [0] := by
    rw [h.payload_eq, ByteArray.data_push, Array.toList_push]
  -- The writer puts a NUL behind the text, so there is one.
  have hzero : 0 ∈ tag.payload.data.toList := by
    rw [hpayload]
    exact List.mem_append_right _ (List.mem_singleton_self 0)
  rw [decode_of_mem hzero, hpayload, takeWhile_append_zero, Contents.textBytes]

/-! ### The framebuffer -/

namespace Framebuffer

/-- The bytes of the layout stand behind the numbers of the mode, two for each channel. -/
theorem uint8?_layout {tag : RawTag} {mode : ScreenMode}
    (h : tag.Carries (RegionWriter.modeBytes mode)) {i : Nat}
    (hi : i < (mode.layout.channels.flatMap fun c => [c.shift, c.size]).length) :
    Bytes.uint8? tag.bytes (29 + i) =
      some (mode.layout.channels.flatMap fun c => [c.shift, c.size])[i] := by
  have hfront : (le64 mode.address ++ le32 mode.width ++ le32 mode.height ++ le32 mode.pitch ++
      [mode.depth].toByteArray).size = 21 := by
    simp
  have hoffset : 29 + i - tagHeaderSize - 21 = i := by
    simp only [tagHeaderSize]
    omega
  rw [h.uint8? (Nat.le_trans (by decide) (Nat.le_add_right 29 i)), RegionWriter.modeBytes,
    ByteArray.append_assoc, Bytes.uint8?_append_right (by rw [hfront, tagHeaderSize]; omega),
    hfront, hoffset, RegionWriter.layoutBytes, Bytes.uint8?_toByteArray_append hi]

/-- The bytes of a mode, each field in front of all that follow it, so that it can be read off
there. -/
theorem modeBytes_eq (mode : ScreenMode) :
    RegionWriter.modeBytes mode = le64 mode.address ++ (le32 mode.width ++ (le32 mode.height ++
      (le32 mode.pitch ++ ([mode.depth].toByteArray ++
        (RegionWriter.layoutBytes mode.layout ++ Bytes.filled 3 0))))) := by
  simp only [RegionWriter.modeBytes, ByteArray.append_assoc]

/-- Take a tag that carries a mode. Then each number of the mode stands at its own offset, in the
sense of `ModeAt`, and the eight bytes of the layout are the four channels. -/
theorem modeAt_of_carries {tag : RawTag} {mode : ScreenMode}
    (h : tag.Carries (RegionWriter.modeBytes mode)) : ModeAt tag.bytes mode := by
  have haddress : Bytes.uint64? tag.bytes 8 = some mode.address := by
    rw [h.uint64? (by decide)]
    simp [modeBytes_eq, tagHeaderSize]
  have hwidth : Bytes.uint32? tag.bytes 16 = some mode.width := by
    rw [h.uint32? (by decide)]
    simp [modeBytes_eq, tagHeaderSize, Bytes.uint32?_append_right]
  have hheight : Bytes.uint32? tag.bytes 20 = some mode.height := by
    rw [h.uint32? (by decide)]
    simp [modeBytes_eq, tagHeaderSize, Bytes.uint32?_append_right]
  have hpitch : Bytes.uint32? tag.bytes 24 = some mode.pitch := by
    rw [h.uint32? (by decide)]
    simp [modeBytes_eq, tagHeaderSize, Bytes.uint32?_append_right]
  have hdepth : Bytes.uint8? tag.bytes 28 = some mode.depth := by
    rw [h.uint8? (by decide)]
    simp [modeBytes_eq, tagHeaderSize, Bytes.uint8?_append_right,
      Bytes.uint8?_toByteArray_append]
  -- The layout is eight bytes: shift and size of each channel in turn.
  have hchannels : (mode.layout.channels.flatMap fun c => [c.shift, c.size]).length = 8 := rfl
  exact {
    address := (Bytes.uint64?_eq_some.mp haddress).2
    width := (Bytes.uint32?_eq_some.mp hwidth).2
    height := (Bytes.uint32?_eq_some.mp hheight).2
    pitch := (Bytes.uint32?_eq_some.mp hpitch).2
    depth := hdepth
    red := ⟨uint8?_layout h (i := 0) (by omega), uint8?_layout h (i := 1) (by omega)⟩
    green := ⟨uint8?_layout h (i := 2) (by omega), uint8?_layout h (i := 3) (by omega)⟩
    blue := ⟨uint8?_layout h (i := 4) (by omega), uint8?_layout h (i := 5) (by omega)⟩
    reserved := ⟨uint8?_layout h (i := 6) (by omega), uint8?_layout h (i := 7) (by omega)⟩
  }

/-- Take a tag that carries a mode. Then `decode` accepts it unless the width, the height, the depth
or the address is zero. -/
theorem decode_carries {tag : RawTag} {mode : ScreenMode}
    (h : tag.Carries (RegionWriter.modeBytes mode)) :
    Framebuffer.decode tag =
      if mode.width = 0 then .error (.zero .framebufferWidth)
      else if mode.height = 0 then .error (.zero .framebufferHeight)
      else if mode.depth = 0 then .error (.zero .framebufferDepth)
      else if mode.address = 0 then .error (.zero .framebufferAddress)
      else .ok { toScreenMode := mode, tag } := by
  have hsize : 40 ≤ tag.size.toNat := by
    rw [h.toNat_size]
    simp [RegionWriter.modeBytes, RegionWriter.layoutBytes, PixelLayout.channels, tagHeaderSize]
  rw [follows_fixedLayout.decode_of_at hsize (modeAt_of_carries h), verdict_eq]

end Framebuffer

/-! ### Ranges and processors -/

namespace MemoryRange

/-- The bytes of a range are `encodedSize` many. -/
theorem size_encode (range : MemoryRange) : range.encode.size = encodedSize := by
  simp [encode, encodedSize]

/-- A range behind the first of two strings is a range of the second. -/
theorem read?_append_right (a b : ByteArray) (offset : Nat) (h : a.size ≤ offset) :
    read? (a ++ b) offset = read? b (offset - a.size) := by
  -- Each of the four fields moves by the size of the first string.
  have h8 : offset + 8 - a.size = offset - a.size + 8 := by omega
  have h16 : offset + 16 - a.size = offset - a.size + 16 := by omega
  have h20 : offset + 20 - a.size = offset - a.size + 20 := by omega
  rw [read?, read?, Bytes.uint64?_append_right h, Bytes.uint64?_append_right (by omega),
    Bytes.uint32?_append_right (by omega), Bytes.uint32?_append_right (by omega), h8, h16, h20]

/-- Take a range whose kind comes from a code. Then `read?` reads it back from its bytes. -/
theorem read?_encode_append {range : MemoryRange} (h : ∃ code, range.kind = .ofCode code)
    (b : ByteArray) : read? (range.encode ++ b) 0 = some range := by
  obtain ⟨code, hcode⟩ := h
  have hkind : MemoryKind.ofCode range.kind.code = range.kind := by
    rw [hcode, MemoryKind.code_ofCode]
  simp [read?, encode, ByteArray.append_assoc, Bytes.uint64?_append_right,
    Bytes.uint32?_append_right, hkind]

end MemoryRange

namespace Processor

/-- The bytes of a processor are `encodedSize` many. -/
theorem size_encode (p : Processor) : p.encode.size = encodedSize := by
  simp [encode, encodedSize]

/-- A processor behind the first of two strings is a processor of the second. -/
theorem read?_append_right (a b : ByteArray) (offset : Nat) (h : a.size ≤ offset) :
    read? (a ++ b) offset = read? b (offset - a.size) := by
  have h4 : offset + 4 - a.size = offset - a.size + 4 := by omega
  rw [read?, read?, Bytes.uint32?_append_right h, Bytes.uint32?_append_right (by omega), h4]

/-- Every processor is read back from its bytes. -/
theorem read?_encode_append (p : Processor) (b : ByteArray) :
    read? (p.encode ++ b) 0 = some p := by
  simp [read?, encode, ByteArray.append_assoc, Bytes.uint32?_append_right]

end Processor

namespace MemoryMap

variable {tag : RawTag} {stride : UInt32} {ranges : List MemoryRange}

/-- What is written for a memory map. -/
def written (stride : UInt32) (ranges : List MemoryRange) : ByteArray :=
  le32 stride ++ le32 (RegionWriter.length32 ranges.length) ++
    joined (RegionWriter.strideEntry stride.toNat) ranges

/-- An entry takes the stride of its memory map, if that is not too small for a range. -/
theorem size_strideEntry {stride : Nat} (h : MemoryRange.encodedSize ≤ stride)
    (range : MemoryRange) : (RegionWriter.strideEntry stride range).size = stride := by
  rw [RegionWriter.strideEntry, ByteArray.size_append, MemoryRange.size_encode, Bytes.size_filled]
  omega

/-- The payload of a memory map is its head and its entries. -/
theorem size_written : (written stride ranges).size =
    8 + (joined (RegionWriter.strideEntry stride.toNat) ranges).size := by
  simp [written]

/-- The entries of a memory map take one stride each, if that is not too small for a range. -/
theorem size_entries (hstride : MemoryRange.encodedSize ≤ stride.toNat) :
    (joined (RegionWriter.strideEntry stride.toNat) ranges).size = ranges.length * stride.toNat :=
  Bytes.size_joined fun range _ => size_strideEntry hstride range

/-- The count that is written for a memory map is the number of its ranges. -/
theorem toNat_count (h : tag.Carries (written stride ranges))
    (hstride : MemoryRange.encodedSize ≤ stride.toNat) :
    (RegionWriter.length32 ranges.length).toNat = ranges.length := by
  have hlt := h.size_lt
  rw [size_written, size_entries hstride] at hlt
  -- The ranges take at least one byte each, so there are no more than fit in 32 bits.
  have hle : ranges.length * 1 ≤ ranges.length * stride.toNat :=
    Nat.mul_le_mul_left _ (Nat.le_trans (by decide) hstride)
  exact RegionWriter.toNat_length32 (by omega)

/-- Take a tag that carries a memory map. Then `decode` accepts it unless its stride is smaller than
a range, in which case the entries were written further apart than the stride says. -/
theorem decode_carries (h : tag.Carries (written stride ranges)) :
    MemoryMap.decode tag =
      if stride.toNat < MemoryRange.encodedSize then .error (.entrySizeTooSmall stride)
      else .ok ⟨tag, stride, RegionWriter.length32 ranges.length⟩ := by
  -- The head is there whatever was written, so both words in it are read.
  have hhead : headSize ≤ tag.size.toNat := by
    rw [h.toNat_size, size_written]
    exact Nat.add_le_add_left (Nat.le_add_right 8 _) tagHeaderSize
  have hentrySize : Bytes.uint32? tag.bytes 8 = some stride := by
    rw [h.uint32? (by decide)]
    simp [written, tagHeaderSize, ByteArray.append_assoc]
  have hcount : Bytes.uint32? tag.bytes 12 = some (RegionWriter.length32 ranges.length) := by
    rw [h.uint32? (by decide)]
    simp [written, tagHeaderSize, ByteArray.append_assoc, Bytes.uint32?_append_right]
  rw [decode_of_head hhead hentrySize hcount]
  by_cases hstride : stride.toNat < MemoryRange.encodedSize
  · rw [if_pos hstride]
    exact if_pos hstride
  · -- As many ranges were written as are declared, so they fit.
    have hfit : ¬ tag.size.toNat <
        16 + (RegionWriter.length32 ranges.length).toNat * stride.toNat := by
      rw [toNat_count h (Nat.le_of_not_lt hstride), h.toNat_size, size_written,
        size_entries (Nat.le_of_not_lt hstride)]
      simp only [tagHeaderSize]
      omega
    rw [if_neg hstride, if_neg hfit]
    exact if_neg hstride

/-- Take a tag that carries a memory map whose kinds all come from codes. Then its entries are the
ranges that were written, in order, whatever the stride. -/
theorem entries_carries (h : tag.Carries (written stride ranges))
    (hstride : MemoryRange.encodedSize ≤ stride.toNat)
    (hkinds : ∀ range ∈ ranges, ∃ code, range.kind = .ofCode code) :
    MemoryMap.entries ⟨tag, stride, RegionWriter.length32 ranges.length⟩ = ranges := by
  have hcount := toNat_count h hstride
  obtain ⟨head, hhead, hbytes⟩ := h
  have hsteps : ∀ i (hi : i < ranges.length),
      RangeCursor.next ⟨tag.bytes, stride.toNat, i, ranges.length⟩ =
        (some ranges[i], ⟨tag.bytes, stride.toNat, i + 1, ranges.length⟩) := by
    intro i hi
    -- In front of range `i` are the header of the tag, two numbers and `i` other ranges.
    have hread : MemoryRange.read? tag.bytes (i * stride.toNat + headSize) = some ranges[i] := by
      have hfront : (head ++ (le32 stride ++ le32 (RegionWriter.length32 ranges.length))).size =
          headSize := by
        simp [hhead, headSize, tagHeaderSize]
      rw [hbytes, written, ← ByteArray.append_assoc, ← hfront, Nat.add_comm,
        Bytes.read_joined MemoryRange.read?_append_right
          (fun range _ => size_strideEntry hstride range) _ hi,
        RegionWriter.strideEntry, ByteArray.append_assoc]
      exact MemoryRange.read?_encode_append (hkinds _ (List.getElem_mem hi)) _
    exact RangeCursor.next_of_read? hi hread
  have hdraws := Iteration.draws_of_states RangeCursor.left hsteps
    (RangeCursor.next_of_le (Nat.le_refl _)) fun _ _ => rfl
  rw [entries, cursor, hcount]
  exact hdraws.collect_eq (Nat.le_refl _)

end MemoryMap

namespace Processors

variable {tag : RawTag} {bootId : UInt32} {processors : List Processor}

/-- What is written for a list of processors. -/
def written (bootId : UInt32) (processors : List Processor) : ByteArray :=
  le32 (RegionWriter.length32 processors.length) ++ le32 bootId ++
    joined Processor.encode processors

/-- The payload of a list of processors is its head and eight bytes for each. -/
theorem size_written : (written bootId processors).size = 8 + processors.length * 8 := by
  have hentries : (joined Processor.encode processors).size = processors.length * 8 :=
    Bytes.size_joined fun p _ => p.size_encode
  simp [written, hentries]

/-- The count that is written for a list of processors is their number. -/
theorem toNat_count (h : tag.Carries (written bootId processors)) :
    (RegionWriter.length32 processors.length).toNat = processors.length := by
  have hlt := h.size_lt
  rw [size_written] at hlt
  exact RegionWriter.toNat_length32 (by omega)

/-- Take a tag that carries a list of processors. Then `decode` accepts it unless the list is
empty. -/
theorem decode_carries (h : tag.Carries (written bootId processors)) :
    Processors.decode tag =
      if processors = [] then .error (.zero .processorCount)
      else .ok ⟨tag, RegionWriter.length32 processors.length, bootId⟩ := by
  have hhead : headSize ≤ tag.size.toNat := by
    rw [h.toNat_size, size_written]
    exact Nat.add_le_add_left (Nat.le_add_right 8 _) tagHeaderSize
  have hcount : Bytes.uint32? tag.bytes 8 = some (RegionWriter.length32 processors.length) := by
    rw [h.uint32? (by decide)]
    simp [written, tagHeaderSize, ByteArray.append_assoc]
  have hbootId : Bytes.uint32? tag.bytes 12 = some bootId := by
    rw [h.uint32? (by decide)]
    simp [written, tagHeaderSize, ByteArray.append_assoc, Bytes.uint32?_append_right]
  -- The declared count is the length itself, so only an empty list declares zero.
  have hzero : RegionWriter.length32 processors.length = 0 ↔ processors = [] := by
    rw [← UInt32.toNat_inj, toNat_count h]
    exact List.length_eq_zero_iff
  rw [decode_of_head hhead hcount hbootId]
  by_cases hnil : processors = []
  · rw [if_pos (hzero.mpr hnil), if_pos hnil]
  · rw [if_neg (mt hzero.mp hnil), if_neg hnil]

/-- Take a tag that carries a list of processors. Then its records are those that were written, in
order. -/
theorem entries_carries (h : tag.Carries (written bootId processors)) :
    Processors.entries ⟨tag, RegionWriter.length32 processors.length, bootId⟩ = processors := by
  have hcount := toNat_count h
  -- The tag has room for the declared count exactly, so none is cut off.
  have hroom : recordCount ⟨tag, RegionWriter.length32 processors.length, bootId⟩ =
      processors.length := by
    have hsize := h.size_bytes
    rw [size_written] at hsize
    simp only [recordCount, hcount, hsize, headSize, Processor.encodedSize, tagHeaderSize]
    omega
  obtain ⟨head, hhead, hbytes⟩ := h
  have hsteps : ∀ i (hi : i < processors.length),
      ProcessorCursor.next ⟨tag.bytes, i, processors.length⟩ =
        (some processors[i], ⟨tag.bytes, i + 1, processors.length⟩) := by
    intro i hi
    have hread : Processor.read? tag.bytes (headSize + i * Processor.encodedSize) =
        some processors[i] := by
      have hfront : (head ++ (le32 (RegionWriter.length32 processors.length) ++ le32 bootId)).size =
          headSize := by
        simp [hhead, headSize, tagHeaderSize]
      rw [hbytes, written, ← ByteArray.append_assoc, ← hfront,
        Bytes.read_joined Processor.read?_append_right (fun p _ => p.size_encode) _ hi]
      exact Processor.read?_encode_append _ _
    exact ProcessorCursor.next_of_read? hi hread
  have hdraws := Iteration.draws_of_states ProcessorCursor.left hsteps
    (ProcessorCursor.next_of_le (Nat.le_refl _)) fun _ _ => rfl
  rw [entries, cursor, hroom]
  exact hdraws.collect_eq (Nat.le_refl _)

end Processors

end EarlyBoot

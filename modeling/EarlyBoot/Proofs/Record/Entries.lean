import EarlyBoot.Proofs.Iteration.Draws
import EarlyBoot.Proofs.Record.Accepted

/-!
# `EarlyBoot.Proofs.Record.Entries`: the entries of a table are all there

Memory maps and lists of processors are tables. Behind a head of 16 bytes stand entries of
one size, and the numbers in the head are whatever somebody wrote there. The decoder of a
memory map checks once that all entries fit, and its cursor then computes the place of
each from its index. The list of processors is cut where the tag ends instead. In both
cases the cursor still has a branch for an entry that cannot be read. That branch is never
taken: each index below the count has a place inside the tag, so the states of the cursor
are numbered and it draws exactly the entries (`Iteration.Draws`).

The decoder and the cursor compute in natural numbers. The machine has 64 bits for a
place, and `decodeInWords` and `nextInWords` give up where a product or a sum needs more.
The numbers in the head have 32 bits each, so this does not happen.

Main statements:

* `MemoryRange.of_read?`, `Processor.of_read?` : an entry is what the bytes at its place say;
* `MemoryMap.decode_all_ranges` : a memory map is refused for the first reason there is, and
  has all its entries otherwise;
* `Processors.decode_all_records` : a list of processors has as many as its tag has room for.
-/

set_option autoImplicit false

namespace EarlyBoot

open Bytes (le32)

/-! ### Numbers in the head -/

/-- Take four bytes inside the tag. Then they hold some 32-bit number, which is the one that is
read. -/
theorem RawTag.exists_uint32? {tag : RawTag} {offset : Nat} (h : offset + 4 ≤ tag.size.toNat) :
    ∃ value, Bytes.uint32? tag.bytes offset = some value ∧
      tag.bytes.extract offset (offset + 4) = le32 value := by
  have hle : offset + 4 ≤ tag.bytes.size := Nat.le_trans h tag.le_size_bytes
  obtain ⟨value, hbytes⟩ := Bytes.exists_le32 tag.bytes offset hle
  exact ⟨value, Bytes.uint32?_eq_some.mpr ⟨hle, hbytes⟩, hbytes⟩

/-- Take a tag with room for the head of a table. Then the head holds two numbers, which are those
that are read from it. -/
theorem RawTag.exists_head {tag : RawTag} (h : 16 ≤ tag.size.toNat) :
    ∃ first second : UInt32,
      Bytes.uint32? tag.bytes 8 = some first ∧ Bytes.uint32? tag.bytes 12 = some second ∧
      tag.bytes.extract 8 12 = le32 first ∧ tag.bytes.extract 12 16 = le32 second := by
  obtain ⟨first, hfirst, hbytes⟩ := tag.exists_uint32? (show 8 + 4 ≤ tag.size.toNat by omega)
  obtain ⟨second, hsecond, hbytes'⟩ := tag.exists_uint32? (show 12 + 4 ≤ tag.size.toNat from h)
  exact ⟨first, second, hfirst, hsecond, hbytes, hbytes'⟩

/-! ### Ranges of memory -/

namespace MemoryRange

/-- The 24 bytes at `offset` are those of the range, whose kind is one that a code stands
for. -/
structure At (bytes : ByteArray) (offset : Nat) (range : MemoryRange) : Prop where
  finish_le : offset + 24 ≤ bytes.size
  kind_eq : MemoryKind.ofCode range.kind.code = range.kind
  bytes_eq : bytes.extract offset (offset + 24) = range.encode

/-- A range that `read?` finds is `At` its offset: base, length, kind and attributes are those that
its 24 bytes say. -/
theorem of_read? {bytes : ByteArray} {offset : Nat} {range : MemoryRange}
    (h : read? bytes offset = some range) : At bytes offset range := by
  simp only [read?, Option.bind_eq_bind, Option.bind_eq_some_iff, Option.pure_def,
    Option.some.injEq] at h
  obtain ⟨base, hbase, length, hlength, code, hcode, attributes, hattributes, rfl⟩ := h
  obtain ⟨-, hbase⟩ := Bytes.uint64?_eq_some.mp hbase
  obtain ⟨-, hlength⟩ := Bytes.uint64?_eq_some.mp hlength
  obtain ⟨-, hcode⟩ := Bytes.uint32?_eq_some.mp hcode
  obtain ⟨hle, hattributes⟩ := Bytes.uint32?_eq_some.mp hattributes
  -- The bytes of a range are those of its four fields, side by side.
  have hsplit : bytes.extract offset (offset + 24) =
      bytes.extract offset (offset + 8) ++ bytes.extract (offset + 8) (offset + 16) ++
        bytes.extract (offset + 16) (offset + 20) ++
          bytes.extract (offset + 20) (offset + 24) := by
    rw [← ByteArray.extract_eq_extract_append_extract (offset + 8) (by omega) (by omega),
      ← ByteArray.extract_eq_extract_append_extract (offset + 16) (by omega) (by omega),
      ← ByteArray.extract_eq_extract_append_extract (offset + 20) (by omega) (by omega)]
  refine ⟨hle, by rw [MemoryKind.code_ofCode], ?_⟩
  rw [hsplit, hbase, hlength, hcode, hattributes, encode, MemoryKind.code_ofCode]

/-- Where 24 bytes are there, `read?` finds some range; no value in them is refused. -/
theorem exists_read? {bytes : ByteArray} {offset : Nat} (h : offset + 24 ≤ bytes.size) :
    ∃ range, read? bytes offset = some range := by
  refine Option.isSome_iff_exists.mp ?_
  rw [read?_isSome]
  exact decide_eq_true h

end MemoryRange

namespace MemoryMap

/-! ### The decoder of a memory map -/

/-- Take a memory map that `decode` accepts. Then its entries are at least 24 bytes apart, and all
of them lie inside its tag. -/
theorem fits_of_decode {tag : RawTag} {map : MemoryMap} (h : decode tag = .ok map) :
    map.tag = tag ∧ 24 ≤ map.entrySize.toNat ∧
      16 + map.entryCount.toNat * map.entrySize.toNat ≤ tag.size.toNat := by
  obtain ⟨-, hhead⟩ := of_decode h
  obtain ⟨entrySize, entryCount, hentrySize, hentryCount, -⟩ := tag.exists_head hhead
  rw [decode_of_head hhead hentrySize hentryCount] at h
  split at h
  · cases h
  · split at h
    · cases h
    · cases h
      exact ⟨rfl, Nat.le_of_not_lt ‹_›, Nat.le_of_not_lt ‹_›⟩

/-! ### Places in words of 64 bits -/

/-- The number, if it is a word. -/
def word? (n : Nat) : Option Nat :=
  if n < UInt64.size then some n else none

/-- Where entry number `index` starts: nothing if the product or the sum is not a word. -/
def place? (index stride : Nat) : Option Nat :=
  (word? (index * stride)).bind fun product => word? (product + headSize)

/-- `decode` with the end of the last entry in words. -/
def decodeInWords (tag : RawTag) : Except TagRejection MemoryMap := do
  let fields ← tag.fields headSize
  let entrySize ← fields.uint32 8
  let entryCount ← fields.uint32 12
  if entrySize.toNat < MemoryRange.encodedSize then
    throw (.entrySizeTooSmall entrySize)
  match place? entryCount.toNat entrySize.toNat with
  | none        => throw (.entriesOutOfBounds entrySize entryCount)
  | some finish =>
      if tag.bytes.size < finish then
        throw (.entriesOutOfBounds entrySize entryCount)
      return { tag, entrySize, entryCount }

/-- `RangeCursor.next` with the place of the entry in words. -/
def nextInWords (cursor : RangeCursor) : Option MemoryRange × RangeCursor :=
  if cursor.count ≤ cursor.index then
    (none, cursor)
  else
    match (place? cursor.index cursor.stride).bind (MemoryRange.read? cursor.bytes) with
    | some range => (some range, { cursor with index := cursor.index + 1 })
    | none       => (none, { cursor with index := cursor.count })

/-- The place of an entry is computed from two 32-bit numbers without leaving 64 bits. -/
theorem place?_eq_some {index stride : Nat} (hindex : index < UInt32.size)
    (hstride : stride < UInt32.size) :
    place? index stride = some (index * stride + headSize) := by
  have hproduct : index * stride ≤ 4294967295 * 4294967295 :=
    Nat.mul_le_mul (Nat.le_of_lt_succ hindex) (Nat.le_of_lt_succ hstride)
  have hword : index * stride + 16 < 18446744073709551616 := by omega
  rw [place?, word?, if_pos (Nat.lt_of_le_of_lt (Nat.le_add_right _ 16) hword), Option.bind_some,
    word?]
  exact if_pos hword

/-- The cursor that computes places in words is the cursor that computes them without a bound. -/
theorem nextInWords_eq {cursor : RangeCursor} (hindex : cursor.index < UInt32.size)
    (hstride : cursor.stride < UInt32.size) : nextInWords cursor = cursor.next := by
  rw [nextInWords, place?_eq_some hindex hstride]
  rfl

/-- The check that computes in words is the check that computes without a bound: it does not
overflow. -/
theorem decodeInWords_eq (tag : RawTag) : decodeInWords tag = decode tag := by
  have hplace : ∀ entrySize entryCount : UInt32, place? entryCount.toNat entrySize.toNat =
      some (entryCount.toNat * entrySize.toNat + headSize) :=
    fun entrySize entryCount => place?_eq_some entryCount.toNat_lt_size entrySize.toNat_lt_size
  simp only [decodeInWords, decode, hplace]

/-! ### The entries of a memory map -/

/-- All entries of the map are there, and its cursor hands them out. -/
structure Complete (map : MemoryMap) : Prop where
  /-- There are as many as the tag declares. -/
  length_entries : map.entries.length = map.entryCount.toNat
  /-- Each is what the bytes at its place say, which are bytes of the tag. -/
  at_place : ∀ i (hi : i < map.entries.length),
    MemoryRange.At map.tag.bytes (16 + i * map.entrySize.toNat) map.entries[i]
  /-- The cursor hands them out, and knows at each point how many are left. -/
  draws : Iteration.Draws RangeCursor.next RangeCursor.left map.cursor map.entries
  /-- A cursor that has not come to its count finds an entry, and goes on. -/
  goes_on : ∀ n, let cursor := Iteration.after RangeCursor.next map.cursor n
    cursor.index < cursor.count →
      ∃ range, cursor.next = (some range, { cursor with index := cursor.index + 1 })
  /-- Places in words make no difference to it. -/
  in_words : ∀ n, let cursor := Iteration.after RangeCursor.next map.cursor n
    nextInWords cursor = cursor.next

/-- The place of each entry of a memory map whose entries fit lies inside its tag. -/
theorem place_le {map : MemoryMap} (hstride : 24 ≤ map.entrySize.toNat)
    (hfit : 16 + map.entryCount.toNat * map.entrySize.toNat ≤ map.tag.size.toNat) {i : Nat}
    (hi : i < map.entryCount.toNat) :
    i * map.entrySize.toNat + headSize + 24 ≤ map.tag.bytes.size := by
  have hsize : map.tag.bytes.size = map.tag.size.toNat := map.tag.size_bytes
  -- The entry in question and those in front of it take no more than all do.
  have hspan : (i + 1) * map.entrySize.toNat ≤ map.entryCount.toNat * map.entrySize.toNat :=
    Nat.mul_le_mul_right _ hi
  rw [Nat.succ_mul] at hspan
  simp only [headSize]
  omega

/-- The cursor in front of range `i`. -/
def cursorAt (map : MemoryMap) (i : Nat) : RangeCursor :=
  { map.cursor with index := i }

/-- The cursor at entry `i` hands out the range there and goes on to entry `i + 1`. -/
theorem next_cursorAt {map : MemoryMap} {i : Nat} {range : MemoryRange}
    (hi : i < map.entryCount.toNat)
    (hread : MemoryRange.read? map.tag.bytes (i * map.entrySize.toNat + headSize) = some range) :
    (map.cursorAt i).next = (some range, map.cursorAt (i + 1)) :=
  RangeCursor.next_of_read? hi hread

/-- A memory map that `decode` accepts is `Complete`: it has all entries it declares, and its cursor
hands out these and no others. -/
theorem complete_of_decode {tag : RawTag} {map : MemoryMap} (h : decode tag = .ok map) :
    map.Complete := by
  obtain ⟨rfl, hstride, hfit⟩ := fits_of_decode h
  have hread : ∀ i < map.entryCount.toNat, ∃ range,
      MemoryRange.read? map.tag.bytes (i * map.entrySize.toNat + headSize) = some range :=
    fun i hi => MemoryRange.exists_read? (place_le hstride hfit hi)
  have hstop : (map.cursorAt map.entryCount.toNat).next =
      (none, map.cursorAt map.entryCount.toNat) := RangeCursor.next_of_le (Nat.le_refl _)
  obtain ⟨ranges, hlength, hranges, hdraws, hafter⟩ :=
    Iteration.exists_draws RangeCursor.next RangeCursor.left map.cursorAt hread
      (fun i range hi => next_cursorAt hi) hstop fun i _ => rfl
  -- From here on the entries are the list that the cursor draws.
  have hentries : map.entries = ranges := hdraws.collect_eq (Nat.le_of_eq hlength)
  exact {
    length_entries := by rw [hentries, hlength]
    at_place := by
      intro i hi
      simp only [hentries] at hi ⊢
      rw [Nat.add_comm]
      exact MemoryRange.of_read? (hranges i hi)
    draws := hentries ▸ hdraws
    goes_on := by
      intro n cursor hlt
      have hcursor : cursor = map.cursorAt (min n map.entryCount.toNat) := hafter n
      rw [hcursor] at hlt ⊢
      obtain ⟨range, hrange⟩ := hread _ hlt
      exact ⟨range, next_cursorAt hlt hrange⟩
    -- Index and stride come from numbers of 32 bits, so their product is a word.
    in_words := by
      intro n cursor
      have hcursor : cursor = map.cursorAt (min n map.entryCount.toNat) := hafter n
      have hindex : min n map.entryCount.toNat < UInt32.size :=
        Nat.lt_of_le_of_lt (Nat.min_le_right n _) map.entryCount.toNat_lt_size
      rw [hcursor]
      exact nextInWords_eq hindex map.entrySize.toNat_lt_size
  }

/-- What `MemoryMap.decode` makes of any tag. It refuses the tag if it has no room for the head, if
the entries are less than 24 bytes apart, or if they do not all fit, for the first of these reasons
that applies, and the check does not overflow. Otherwise the map is `Complete`: its cursor hands out
all entries it declares, each with the bytes at its place, knows how many are left, and never stops
early. -/
theorem decode_all_ranges (tag : RawTag) :
    (tag.size.toNat < 16 → decode tag = .error (.tooSmall tag.size 16)) ∧
    (16 ≤ tag.size.toNat → ∃ entrySize entryCount : UInt32,
      tag.bytes.extract 8 12 = le32 entrySize ∧ tag.bytes.extract 12 16 = le32 entryCount ∧
      decode tag =
        if entrySize.toNat < 24 then .error (.entrySizeTooSmall entrySize)
        else if tag.size.toNat < 16 + entryCount.toNat * entrySize.toNat then
          .error (.entriesOutOfBounds entrySize entryCount)
        else .ok { tag, entrySize, entryCount }) ∧
    decodeInWords tag = decode tag ∧
    ∀ map, decode tag = .ok map → map.Complete := by
  refine ⟨?_, ?_, decodeInWords_eq tag, fun map => complete_of_decode⟩
  · intro hsize
    rw [decode, RawTag.fields_of_lt (show tag.size.toNat < headSize from hsize)]
    rfl
  · intro hsize
    obtain ⟨entrySize, entryCount, hentrySize, hentryCount, hbytes, hbytes'⟩ :=
      tag.exists_head hsize
    exact ⟨entrySize, entryCount, hbytes, hbytes', decode_of_head hsize hentrySize hentryCount⟩

end MemoryMap

/-! ### Processors -/

namespace Processor

/-- The 8 bytes at `offset` are those of the processor, all 32 of its flags among them. -/
structure At (bytes : ByteArray) (offset : Nat) (p : Processor) : Prop where
  finish_le : offset + 8 ≤ bytes.size
  bytes_eq : bytes.extract offset (offset + 8) = p.encode

/-- A processor that `read?` finds is `At` its offset: its two numbers are those that its eight
bytes say. -/
theorem of_read? {bytes : ByteArray} {offset : Nat} {p : Processor}
    (h : read? bytes offset = some p) : At bytes offset p := by
  simp only [read?, Option.bind_eq_bind, Option.bind_eq_some_iff, Option.pure_def,
    Option.some.injEq] at h
  obtain ⟨id, hid, flags, hflags, rfl⟩ := h
  obtain ⟨-, hid⟩ := Bytes.uint32?_eq_some.mp hid
  obtain ⟨hle, hflags⟩ := Bytes.uint32?_eq_some.mp hflags
  have hsplit : bytes.extract offset (offset + 8) =
      bytes.extract offset (offset + 4) ++ bytes.extract (offset + 4) (offset + 8) := by
    rw [← ByteArray.extract_eq_extract_append_extract (offset + 4) (by omega) (by omega)]
  refine ⟨hle, ?_⟩
  rw [hsplit, hid, hflags, encode]

/-- Where eight bytes are there, `read?` finds some processor. -/
theorem exists_read? {bytes : ByteArray} {offset : Nat} (h : offset + 8 ≤ bytes.size) :
    ∃ p, read? bytes offset = some p := by
  have hid := Bytes.field?_of_le (show offset + 4 ≤ bytes.size by omega)
  have hflags := Bytes.field?_of_le (show offset + 4 + 4 ≤ bytes.size by omega)
  simp [read?, Bytes.uint32?, hid, hflags]

end Processor

namespace Processors

/-- All records that are declared and that the tag has room for are there, and the cursor
hands them out. -/
structure Complete (processors : Processors) : Prop where
  /-- There are as many as declared, or as many as fit if that is less. -/
  length_entries : processors.entries.length =
    min processors.count.toNat ((processors.tag.size.toNat - 16) / 8)
  /-- Each is what the bytes at its place say, which are bytes of the tag. -/
  at_place : ∀ i (hi : i < processors.entries.length),
    Processor.At processors.tag.bytes (16 + 8 * i) processors.entries[i]
  /-- The cursor hands them out, and knows at each point how many are left. -/
  draws : Iteration.Draws ProcessorCursor.next ProcessorCursor.left processors.cursor
    processors.entries
  /-- The index never passes the count, so their difference is one. -/
  index_le : ∀ n, let cursor := Iteration.after ProcessorCursor.next processors.cursor n
    cursor.index ≤ cursor.count

/-- The cursor in front of record `i`. -/
def cursorAt (processors : Processors) (i : Nat) : ProcessorCursor :=
  { processors.cursor with index := i }

/-- The cursor at record `i` hands out the processor there and goes on to record `i + 1`. -/
theorem next_cursorAt {processors : Processors} {i : Nat} {p : Processor}
    (hi : i < processors.recordCount)
    (hread : Processor.read? processors.tag.bytes (headSize + i * Processor.encodedSize) =
      some p) :
    (processors.cursorAt i).next = (some p, processors.cursorAt (i + 1)) :=
  ProcessorCursor.next_of_read? hi hread

/-- A list of processors has as many records as it declares, or has room for if that is less. -/
theorem recordCount_eq (processors : Processors) : processors.recordCount =
    min processors.count.toNat ((processors.tag.size.toNat - 16) / 8) := by
  have hsize : processors.tag.bytes.size = processors.tag.size.toNat := processors.tag.size_bytes
  rw [recordCount, hsize, Nat.min_comm]
  rfl

/-- The place of each record that is counted lies inside the tag. -/
theorem place_le {processors : Processors} {i : Nat} (hi : i < processors.recordCount) :
    headSize + i * Processor.encodedSize + 8 ≤ processors.tag.bytes.size := by
  simp only [recordCount, headSize, Processor.encodedSize] at hi ⊢
  omega

/-- Every list of processors is `Complete`: it has all records that it can have, and its cursor
hands out these and no others. -/
theorem complete (processors : Processors) : processors.Complete := by
  have hread : ∀ i < processors.recordCount, ∃ p,
      Processor.read? processors.tag.bytes (headSize + i * Processor.encodedSize) = some p :=
    fun i hi => Processor.exists_read? (place_le hi)
  -- The count was cut to what there is room for, so every place below it can be read.
  have hstop : (processors.cursorAt processors.recordCount).next =
      (none, processors.cursorAt processors.recordCount) :=
    ProcessorCursor.next_of_le (Nat.le_refl _)
  obtain ⟨records, hlength, hrecords, hdraws, hafter⟩ :=
    Iteration.exists_draws ProcessorCursor.next ProcessorCursor.left processors.cursorAt hread
      (fun i p hi => next_cursorAt hi) hstop fun i _ => rfl
  have hentries : processors.entries = records := hdraws.collect_eq (Nat.le_of_eq hlength)
  exact {
    length_entries := by rw [hentries, hlength, recordCount_eq]
    at_place := by
      intro i hi
      simp only [hentries] at hi ⊢
      rw [Nat.mul_comm]
      exact Processor.of_read? (hrecords i hi)
    draws := hentries ▸ hdraws
    index_le := by
      intro n cursor
      have hcursor : cursor = processors.cursorAt (min n processors.recordCount) := hafter n
      rw [hcursor]
      exact Nat.min_le_right n _
  }

/-- What `Processors.decode` makes of any tag. It refuses the tag if it has no room for the head or
declares no processor, and for no other reason. Otherwise the list is `Complete`: its cursor hands
out as many records as the tag declares, or has room for if that is less, each with the bytes at its
place, and knows how many are left. -/
theorem decode_all_records (tag : RawTag) :
    (tag.size.toNat < 16 → decode tag = .error (.tooSmall tag.size 16)) ∧
    (16 ≤ tag.size.toNat → ∃ count bootId : UInt32,
      tag.bytes.extract 8 12 = le32 count ∧ tag.bytes.extract 12 16 = le32 bootId ∧
      decode tag =
        if count = 0 then .error (.zero .processorCount) else .ok { tag, count, bootId }) ∧
    ∀ processors, decode tag = .ok processors → processors.Complete := by
  refine ⟨?_, ?_, fun processors _ => processors.complete⟩
  · intro hsize
    rw [decode, RawTag.fields_of_lt (show tag.size.toNat < headSize from hsize)]
    rfl
  · intro hsize
    obtain ⟨count, bootId, hcount, hbootId, hbytes, hbytes'⟩ := tag.exists_head hsize
    exact ⟨count, bootId, hbytes, hbytes', decode_of_head hsize hcount hbootId⟩

end Processors

end EarlyBoot

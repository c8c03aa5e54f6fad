import EarlyBoot.Iteration
import EarlyBoot.Memory.Usable
import EarlyBoot.Record.Fields

/-!
# `EarlyBoot.Record.MemoryMap`: the memory map

A memory map tag declares the distance between its entries, their number, and
then the entries. The distance may exceed the size of an entry, so that later
versions of the format can add to it. An accepted map has room for all entries
that it declares; they are handed out one after the other by a cursor.
-/

set_option autoImplicit false

namespace EarlyBoot

/-- An accepted memory map. -/
structure MemoryMap where
  tag : RawTag
  /-- Distance between entries in bytes. -/
  entrySize : UInt32
  entryCount : UInt32
  deriving DecidableEq

/-- A cursor over the entries of a memory map. -/
structure RangeCursor where
  bytes : ByteArray
  /-- Distance between entries in bytes. -/
  stride : Nat
  index : Nat
  count : Nat

namespace MemoryMap

/-- Size of what comes before the entries. -/
def headSize : Nat := 16

end MemoryMap

namespace RangeCursor

/-- How many entries are left at most. -/
def left (cursor : RangeCursor) : Nat :=
  cursor.count - cursor.index

/-- Hands out the next entry. A cursor whose next entry is not there stops for good. -/
def next (cursor : RangeCursor) : Option MemoryRange × RangeCursor :=
  if cursor.count ≤ cursor.index then
    (none, cursor)
  else
    match MemoryRange.read? cursor.bytes (cursor.index * cursor.stride + MemoryMap.headSize) with
    | some range => (some range, { cursor with index := cursor.index + 1 })
    | none       => (none, { cursor with index := cursor.count })

/-- Take a cursor in front of a range that `MemoryRange.read?` finds. Then `next` hands out this
range, and the index goes up by one. -/
theorem next_of_read? {cursor : RangeCursor} {range : MemoryRange}
    (hlt : cursor.index < cursor.count)
    (hread : MemoryRange.read? cursor.bytes (cursor.index * cursor.stride + MemoryMap.headSize) =
      some range) :
    cursor.next = (some range, { cursor with index := cursor.index + 1 }) := by
  rw [next, if_neg (Nat.not_le.mpr hlt), hread]

/-- Take a cursor behind the last range. Then `next` hands out nothing and the cursor stays, so
every later call hands out nothing either. -/
theorem next_of_le {cursor : RangeCursor} (h : cursor.count ≤ cursor.index) :
    cursor.next = (none, cursor) :=
  if_pos h

end RangeCursor

namespace MemoryMap

/-- Reads a memory map: the tag holds its head, entries are not closer to each other
than their size, and all of them fit into the tag. -/
def decode (tag : RawTag) : Except TagRejection MemoryMap := do
  let fields ← tag.fields headSize
  let entrySize ← fields.uint32 8
  let entryCount ← fields.uint32 12
  if entrySize.toNat < MemoryRange.encodedSize then
    throw (.entrySizeTooSmall entrySize)
  if tag.bytes.size < entryCount.toNat * entrySize.toNat + headSize then
    throw (.entriesOutOfBounds entrySize entryCount)
  return { tag, entrySize, entryCount }

/-- A cursor in front of the first entry. -/
def cursor (map : MemoryMap) : RangeCursor where
  bytes := map.tag.bytes
  stride := map.entrySize.toNat
  index := 0
  count := map.entryCount.toNat

def entries (map : MemoryMap) : List MemoryRange :=
  Iteration.collect RangeCursor.next map.entryCount.toNat map.cursor

def usableBytes (map : MemoryMap) : UInt64 :=
  Memory.usableBytes map.entries

def usableMebibytes (map : MemoryMap) : UInt32 :=
  Memory.usableMebibytes map.entries

end MemoryMap

end EarlyBoot

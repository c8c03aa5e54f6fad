import EarlyBoot.Record.Fields
import EarlyBoot.Register.Processor

/-!
# `EarlyBoot.Record.Processors`: the processors of the machine

A processor tag declares how many processors there are and which of them the
system boots on. The records behind that are advisory: as many are handed out
as fit into the tag, and no more than are declared.
-/

set_option autoImplicit false

namespace EarlyBoot

open Register

/-- One processor. -/
structure Processor where
  id : UInt32
  /-- What is known about it. -/
  flags : ProcessorFlags
  deriving DecidableEq

namespace Processor

def encodedSize : Nat := 8

def read? (bytes : ByteArray) (offset : Nat) : Option Processor := do
  let id ← Bytes.uint32? bytes offset
  let flags ← Bytes.uint32? bytes (offset + 4)
  return { id, flags := ⟨flags.toBitVec⟩ }

def encode (p : Processor) : ByteArray :=
  Bytes.le32 p.id ++ Bytes.le32 ⟨p.flags.image⟩

end Processor

/-- An accepted list of processors. -/
structure Processors where
  tag : RawTag
  count : UInt32
  /-- Number of the processor that the system boots on. -/
  bootId : UInt32
  deriving DecidableEq

/-- A cursor over the processor records of a tag. -/
structure ProcessorCursor where
  bytes : ByteArray
  index : Nat
  count : Nat

namespace Processors

/-- Size of what comes before the records. -/
def headSize : Nat := 16

end Processors

namespace ProcessorCursor

/-- How many records are left. -/
def left (cursor : ProcessorCursor) : Nat :=
  cursor.count - cursor.index

/-- Hands out the next processor. A cursor whose next record is not there stops for good. -/
def next (cursor : ProcessorCursor) : Option Processor × ProcessorCursor :=
  if cursor.count ≤ cursor.index then
    (none, cursor)
  else
    match Processor.read? cursor.bytes
        (Processors.headSize + cursor.index * Processor.encodedSize) with
    | some p => (some p, { cursor with index := cursor.index + 1 })
    | none   => (none, { cursor with index := cursor.count })

/-- Take a cursor in front of a record that `Processor.read?` finds. Then `next` hands out this
record, and the index goes up by one. -/
theorem next_of_read? {cursor : ProcessorCursor} {p : Processor}
    (hlt : cursor.index < cursor.count)
    (hread : Processor.read? cursor.bytes
      (Processors.headSize + cursor.index * Processor.encodedSize) = some p) :
    cursor.next = (some p, { cursor with index := cursor.index + 1 }) := by
  rw [next, if_neg (Nat.not_le.mpr hlt), hread]

/-- Take a cursor behind the last record. Then `next` hands out nothing and the cursor stays, so
every later call hands out nothing either. -/
theorem next_of_le {cursor : ProcessorCursor} (h : cursor.count ≤ cursor.index) :
    cursor.next = (none, cursor) :=
  if_pos h

end ProcessorCursor

namespace Processors

def decode (tag : RawTag) : Except TagRejection Processors := do
  let fields ← tag.fields headSize
  let count ← fields.uint32 8
  let bootId ← fields.uint32 12
  requireNonzero count .processorCount
  return { tag, count, bootId }

/-- How many records the tag holds: those that fit, and no more than are declared. -/
def recordCount (processors : Processors) : Nat :=
  min ((processors.tag.bytes.size - headSize) / Processor.encodedSize) processors.count.toNat

def cursor (processors : Processors) : ProcessorCursor where
  bytes := processors.tag.bytes
  index := 0
  count := processors.recordCount

def entries (processors : Processors) : List Processor :=
  Iteration.collect ProcessorCursor.next processors.recordCount processors.cursor

end Processors

end EarlyBoot

import EarlyBoot.Bytes.Splice
import EarlyBoot.Pixel.Mode
import EarlyBoot.Record.MemoryMap
import EarlyBoot.Record.Processors

/-!
# `EarlyBoot.Region.Writer`: writing a region tag by tag

A writer holds the numbers of the header and the bytes of the tags written so
far, each padded with zeros to the tag alignment. Its declared size is the real
one unless it is told otherwise, so that broken regions can be written as well.

Main statements:

* `size_push` : a tag takes its header and its payload, rounded up;
* `size_bytes` : the bytes of a region are its header and its tags.
-/

set_option autoImplicit false

namespace EarlyBoot

/-- A region that is being written. -/
structure RegionWriter where
  magic : UInt32 := regionMagic
  version : UInt32 := 1
  reserved : UInt32 := 0
  /-- Declared size; the real one if there is none. -/
  totalSize? : Option UInt32 := none
  /-- The tags so far, padded. -/
  tags : ByteArray := ByteArray.empty
  deriving DecidableEq

namespace RegionWriter

def empty : RegionWriter := {}

/-- A length as a 32-bit number, at most `2 ^ 32 - 1`. -/
def length32 (n : Nat) : UInt32 :=
  UInt32.ofNat (min n (UInt32.size - 1))

/-- `bytes` with zeros behind them up to the next multiple of the tag alignment. -/
def padded (bytes : ByteArray) : ByteArray :=
  bytes ++ Bytes.filled (Bytes.aligned bytes.size - bytes.size) 0

def push (w : RegionWriter) (code flags : UInt16) (size : UInt32) (payload : ByteArray) :
    RegionWriter :=
  { w with
    tags := padded
      (w.tags ++ (Bytes.le16 code ++ Bytes.le16 flags ++ Bytes.le32 size) ++ payload) }

/-- Writes a tag whose declared size is its real one. -/
def rawTag (w : RegionWriter) (code flags : UInt16) (payload : ByteArray) : RegionWriter :=
  w.push code flags (length32 (tagHeaderSize + payload.size)) payload

/-- Writes a tag whose declared size need not be its real one. -/
def rawTagSized (w : RegionWriter) (code : UInt16) (size : UInt32) (payload : ByteArray) :
    RegionWriter :=
  w.push code 0 size payload

def tag (w : RegionWriter) (kind : TagKind) (payload : ByteArray) : RegionWriter :=
  w.rawTag kind.code 0 payload

/-- Writes a memory map from the bytes of its entries. -/
def memoryMapRaw (w : RegionWriter) (entrySize entryCount : UInt32) (entries : ByteArray) :
    RegionWriter :=
  w.tag .memoryMap (Bytes.le32 entrySize ++ Bytes.le32 entryCount ++ entries)

/-- The bytes of a range, with zeros behind them up to `stride` bytes. -/
def strideEntry (stride : Nat) (range : MemoryRange) : ByteArray :=
  range.encode ++ Bytes.filled (stride - MemoryRange.encodedSize) 0

/-- Writes a memory map whose entries declare a distance of `stride` bytes; they are
never written closer to each other than their size. -/
def memoryMap (w : RegionWriter) (stride : UInt32) (ranges : List MemoryRange) :
    RegionWriter :=
  w.memoryMapRaw stride (length32 ranges.length)
    (ranges.foldl (fun bytes range => bytes ++ strideEntry stride.toNat range) ByteArray.empty)

/-- The bytes of a pixel layout. -/
def layoutBytes (layout : PixelLayout) : ByteArray :=
  (layout.channels.flatMap fun channel => [channel.shift, channel.size]).toByteArray

/-- The bytes of a screen mode, and three bytes that nothing is read from. -/
def modeBytes (mode : ScreenMode) : ByteArray :=
  Bytes.le64 mode.address ++ Bytes.le32 mode.width ++ Bytes.le32 mode.height ++
    Bytes.le32 mode.pitch ++ [mode.depth].toByteArray ++ layoutBytes mode.layout ++
    Bytes.filled 3 0

def framebuffer (w : RegionWriter) (mode : ScreenMode) : RegionWriter :=
  w.tag .framebuffer (modeBytes mode)

/-- Writes a text and the NUL behind it. -/
def text (w : RegionWriter) (kind : TagKind) (content : String) : RegionWriter :=
  w.tag kind (content.toUTF8.push 0)

def commandLine (w : RegionWriter) (content : String) : RegionWriter :=
  w.text .commandLine content

def bootloader (w : RegionWriter) (content : String) : RegionWriter :=
  w.text .bootloader content

/-- Writes the address of the root of the firmware tables. -/
def acpiRoot (w : RegionWriter) (address : UInt64) : RegionWriter :=
  w.tag .acpiRoot (Bytes.le64 address)

def processors (w : RegionWriter) (bootId : UInt32) (entries : List Processor) : RegionWriter :=
  w.tag .processors
    (entries.foldl (fun bytes p => bytes ++ p.encode)
      (Bytes.le32 (length32 entries.length) ++ Bytes.le32 bootId))

def ramdisk (w : RegionWriter) (start length : UInt64) : RegionWriter :=
  w.tag .ramdisk (Bytes.le64 start ++ Bytes.le64 length)

/-- Writes a closing tag; tags written later follow it. -/
def close (w : RegionWriter) : RegionWriter :=
  w.tag .closing ByteArray.empty

/-- What a tag can be written for. -/
inductive Entry where
  /-- A memory map with a declared distance between its ranges. -/
  | memoryMap (stride : UInt32) (ranges : List MemoryRange)
  | framebuffer (mode : ScreenMode)
  | commandLine (content : String)
  | bootloader (content : String)
  | acpiRoot (address : UInt64)
  | processors (bootId : UInt32) (entries : List Processor)
  | ramdisk (start length : UInt64)
  deriving DecidableEq

/-- A memory map whose ranges follow each other closely. -/
def Entry.packedMap (ranges : List MemoryRange) : Entry :=
  .memoryMap (length32 MemoryRange.encodedSize) ranges

/-- Writes the tag of an entry. -/
def write (w : RegionWriter) : Entry → RegionWriter
  | .memoryMap stride ranges   => w.memoryMap stride ranges
  | .framebuffer mode          => w.framebuffer mode
  | .commandLine content       => w.commandLine content
  | .bootloader content        => w.bootloader content
  | .acpiRoot address          => w.acpiRoot address
  | .processors bootId entries => w.processors bootId entries
  | .ramdisk start length      => w.ramdisk start length

def writeAll (w : RegionWriter) (entries : List Entry) : RegionWriter :=
  entries.foldl write w

/-- The bytes of the region as it is. -/
def bytes (w : RegionWriter) : ByteArray :=
  Bytes.le32 w.magic ++ Bytes.le32 (w.totalSize?.getD (length32 (headerSize + w.tags.size))) ++
    Bytes.le32 w.version ++ Bytes.le32 w.reserved ++ w.tags

/-- The bytes of the region with a closing tag at its end. -/
def closedBytes (w : RegionWriter) : ByteArray :=
  w.close.bytes

/-- Writes a tag that was read. -/
def copyTag (w : RegionWriter) (tag : RawTag) : RegionWriter :=
  w.rawTag tag.kind.code tag.flags tag.payload

/-- The bytes of a region with the tags of another, and nothing else of it. -/
def copied (region : Region) : ByteArray :=
  (region.tags.foldl copyTag empty).bytes

/-! ### Sizes -/

/-- Padding rounds the size up to the alignment of tags. -/
theorem size_padded (bytes : ByteArray) : (padded bytes).size = Bytes.aligned bytes.size := by
  have := Bytes.le_aligned bytes.size
  simp only [padded, ByteArray.size_append, Bytes.size_filled]
  omega

/-- A pushed tag takes the bytes of its header and its payload, rounded up with `aligned`, whatever
kind and size it declares. -/
theorem size_push (w : RegionWriter) (code flags : UInt16) (size : UInt32) (payload : ByteArray) :
    (w.push code flags size payload).tags.size =
      Bytes.aligned (w.tags.size + tagHeaderSize + payload.size) := by
  simp [push, size_padded, Bytes.le16, Bytes.le32, tagHeaderSize]

/-- The bytes of a region are its header and its tags; `bytes` adds nothing else. -/
theorem size_bytes (w : RegionWriter) : w.bytes.size = headerSize + w.tags.size := by
  simp [bytes, Bytes.le32, headerSize]

end RegionWriter

end EarlyBoot

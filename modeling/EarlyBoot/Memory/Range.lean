import EarlyBoot.Bytes.LittleEndian
import EarlyBoot.Text.Numeral

/-!
# `EarlyBoot.Memory.Range`: ranges of physical memory

A range has a base, a length and a use. It is encoded in 24 bytes, and shown as
one row of a table.

Main statements:

* `MemoryKind.code_ofCode` : a use remembers the code that it was read from;
* `MemoryRange.read?_isSome` : a range is read where all its bytes are there.
-/

set_option autoImplicit false

namespace EarlyBoot

/-- What a range of memory is used for. -/
inductive MemoryKind where
  | reserved
  | usable
  /-- Tables that can be dropped once they are read. -/
  | acpiReclaimable
  /-- Firmware storage, never to be touched. -/
  | acpiNvs
  | bad
  | bootloader
  | kernel
  | framebuffer
  | ramdisk
  | modules
  /-- A code that has no meaning yet. -/
  | unknown (code : UInt32)
  deriving DecidableEq, Repr

namespace MemoryKind

/-- The kind that a code stands for. -/
def ofCode (code : UInt32) : MemoryKind :=
  match code with
  | 0 => .reserved
  | 1 => .usable
  | 2 => .acpiReclaimable
  | 3 => .acpiNvs
  | 4 => .bad
  | 5 => .bootloader
  | 6 => .kernel
  | 7 => .framebuffer
  | 8 => .ramdisk
  | 9 => .modules
  | code => .unknown code

def code : MemoryKind → UInt32
  | .reserved        => 0
  | .usable          => 1
  | .acpiReclaimable => 2
  | .acpiNvs         => 3
  | .bad             => 4
  | .bootloader      => 5
  | .kernel          => 6
  | .framebuffer     => 7
  | .ramdisk         => 8
  | .modules         => 9
  | .unknown code    => code

/-- The kind in words; all unknown ones look alike. -/
def name : MemoryKind → String
  | .reserved        => "Reserved"
  | .usable          => "Usable"
  | .acpiReclaimable => "ACPI Reclaimable"
  | .acpiNvs         => "ACPI NVS"
  | .bad             => "Bad Memory"
  | .bootloader      => "Bootloader"
  | .kernel          => "Kernel"
  | .framebuffer     => "Framebuffer"
  | .ramdisk         => "InitRD"
  | .modules         => "Modules"
  | .unknown _       => "Unknown"

def isUsable (kind : MemoryKind) : Bool :=
  kind = .usable

/-- A kind remembers the code that it was read from, so `code` undoes `ofCode` also on the codes
that have no meaning yet. -/
@[simp]
theorem code_ofCode (c : UInt32) : (ofCode c).code = c := by
  unfold ofCode
  split <;> rfl

end MemoryKind

/-- A range of physical memory. -/
structure MemoryRange where
  base : UInt64
  length : UInt64
  kind : MemoryKind
  /-- Attributes, which nothing here looks at. -/
  attributes : UInt32 := 0
  deriving DecidableEq, Repr

namespace MemoryRange

def encodedSize : Nat := 24

/-- Address behind the last byte, unless that lies past the address space. -/
def finish? (range : MemoryRange) : Option UInt64 :=
  if range.base.toNat + range.length.toNat < UInt64.size then some (range.base + range.length)
  else none

/-- The range at `offset`, if the bytes hold it. -/
def read? (bytes : ByteArray) (offset : Nat) : Option MemoryRange := do
  let base ← Bytes.uint64? bytes offset
  let length ← Bytes.uint64? bytes (offset + 8)
  let code ← Bytes.uint32? bytes (offset + 16)
  let attributes ← Bytes.uint32? bytes (offset + 20)
  return { base, length, kind := .ofCode code, attributes }

def encode (range : MemoryRange) : ByteArray :=
  Bytes.le64 range.base ++ Bytes.le64 range.length ++ Bytes.le32 range.kind.code ++
    Bytes.le32 range.attributes

/-- The range as a row of a table: base, length and kind. -/
def row (range : MemoryRange) : String :=
  Text.hex 16 range.base.toNat ++ " | " ++ Text.hex 16 range.length.toNat ++ " | " ++
    range.kind.name

/-- A range is read exactly where all of its `encodedSize` bytes are there; no value in them is
refused. -/
theorem read?_isSome (bytes : ByteArray) (offset : Nat) :
    (read? bytes offset).isSome = decide (offset + encodedSize ≤ bytes.size) := by
  have h8 : offset + 8 + 8 = offset + 16 := rfl
  have h16 : offset + 16 + 4 = offset + 20 := rfl
  have h20 : offset + 20 + 4 = offset + 24 := rfl
  by_cases h : offset + 24 ≤ bytes.size
  · simp [read?, Bytes.uint64?, Bytes.uint32?, Bytes.field?, encodedSize, h8, h16, h20, h,
      show offset + 8 ≤ bytes.size by omega, show offset + 16 ≤ bytes.size by omega,
      show offset + 20 ≤ bytes.size by omega]
  · have last : Bytes.uint32? bytes (offset + 20) = none := by
      simp [Bytes.uint32?, Bytes.field?_of_lt (show bytes.size < offset + 20 + 4 by omega)]
    simp [read?, last, encodedSize, h]

end MemoryRange

end EarlyBoot

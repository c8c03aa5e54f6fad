import EarlyBoot.Bytes.LittleEndian
import EarlyBoot.Limits
import EarlyBoot.Text.Numeral

/-!
# `EarlyBoot.Region.Header`: the header of a region

A region starts with four 32-bit numbers: a magic number, the size of the whole
region, the version of the format, and a reserved number that is zero. The
conditions on them are tried in a fixed order, and the first one that fails is
the error.

Main statement:

* `read_eq_ok` : a header is read exactly when all conditions hold.
-/

set_option autoImplicit false

namespace EarlyBoot

open Text

/-- The four numbers at the start of a region. -/
structure Header where
  /-- Tells a region from other bytes. -/
  magic : UInt32
  /-- Size of the region in bytes, header and tags included. -/
  totalSize : UInt32
  version : UInt32
  /-- Zero. -/
  reserved : UInt32
  deriving DecidableEq, Repr

/-- Why a header is refused. -/
inductive HeaderError where
  | tooShort
  | badMagic (magic : UInt32)
  | badTotalSize (totalSize : UInt32)
  | unsupportedVersion (version : UInt32)
  | reservedNotZero (reserved : UInt32)
  | truncated (totalSize : UInt32) (available : Nat)
  deriving DecidableEq, Repr

def HeaderError.message : HeaderError → String
  | .tooShort => "region is shorter than the 16-byte header"
  | .badMagic magic => "bad magic " ++ hex 8 magic.toNat
  | .badTotalSize size => "declared total size " ++ decimal size.toNat ++ " is out of range"
  | .unsupportedVersion version =>
      "protocol version " ++ decimal version.toNat ++ " is older than supported"
  | .reservedNotZero reserved =>
      "reserved header field is " ++ hex 0 reserved.toNat ++ ", expected zero"
  | .truncated size available =>
      "header declares " ++ decimal size.toNat ++ " bytes but only " ++ decimal available ++
        " are readable"

namespace Header

/-- The four numbers, if the bytes hold them all. -/
def fields? (bytes : ByteArray) : Option Header := do
  let magic ← Bytes.uint32? bytes 0
  let totalSize ← Bytes.uint32? bytes 4
  let version ← Bytes.uint32? bytes 8
  let reserved ← Bytes.uint32? bytes 12
  return { magic, totalSize, version, reserved }

/-- The first condition that a header at the start of `available` bytes breaks. -/
def fault? (header : Header) (available : Nat) (limits : Limits) : Option HeaderError :=
  if header.magic ≠ regionMagic then
    some (.badMagic header.magic)
  else if header.totalSize.toNat < minTotalSize ∨ limits.maxTotalSize < header.totalSize then
    some (.badTotalSize header.totalSize)
  else if header.version < limits.minVersion then
    some (.unsupportedVersion header.version)
  else if header.reserved ≠ 0 then
    some (.reservedNotZero header.reserved)
  else if available < header.totalSize.toNat then
    some (.truncated header.totalSize available)
  else
    none

/-- Reads the header at the start of `bytes` and checks it. -/
def read (bytes : ByteArray) (limits : Limits) : Except HeaderError Header :=
  match fields? bytes with
  | none        => .error .tooShort
  | some header =>
      match header.fault? bytes.size limits with
      | some fault => .error fault
      | none       => .ok header

/-- Whether `bytes` start with a header that keeps the usual bounds. -/
def isValid (bytes : ByteArray) : Bool :=
  (read bytes .standard).isOk

/-- The four numbers of a header are there exactly when there are `headerSize` bytes; no value in
them is refused here. -/
theorem fields?_isSome (bytes : ByteArray) :
    (fields? bytes).isSome = decide (headerSize ≤ bytes.size) := by
  by_cases h : headerSize ≤ bytes.size
  · have h' : 16 ≤ bytes.size := h
    simp [fields?, Bytes.uint32?, Bytes.field?, h, show 4 ≤ bytes.size by omega,
      show 8 ≤ bytes.size by omega, show 12 ≤ bytes.size by omega, h']
  · have h' : ¬ 16 ≤ bytes.size := h
    have last : Bytes.uint32? bytes 12 = none := by
      simp [Bytes.uint32?, Bytes.field?_of_lt (show bytes.size < 12 + 4 by omega)]
    simp [fields?, last, h]

/-- The check `fault?` finds nothing exactly if the header keeps all six conditions: the magic
number, the two bounds on the size, the version, the reserved word and the bytes that are there. -/
theorem fault?_eq_none {header : Header} {available : Nat} {limits : Limits} :
    header.fault? available limits = none ↔
      header.magic = regionMagic ∧
        minTotalSize ≤ header.totalSize.toNat ∧ header.totalSize ≤ limits.maxTotalSize ∧
        limits.minVersion ≤ header.version ∧ header.reserved = 0 ∧
        header.totalSize.toNat ≤ available := by
  unfold fault?
  grind [UInt32.not_lt]

/-- The reader `Header.read` succeeds exactly if the four numbers are there and `fault?` finds no
broken condition in them. -/
theorem read_eq_ok {bytes : ByteArray} {limits : Limits} {header : Header} :
    read bytes limits = .ok header ↔
      fields? bytes = some header ∧ header.fault? bytes.size limits = none := by
  unfold read
  cases fields? bytes with
  | none => simp
  | some found =>
      simp only [Option.some.injEq]
      constructor
      · intro h
        split at h
        · simp at h
        · rename_i hf
          simp only [Except.ok.injEq] at h
          exact ⟨h, h ▸ hf⟩
      · rintro ⟨rfl, hf⟩
        simp [hf]

end Header

end EarlyBoot

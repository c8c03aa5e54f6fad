import EarlyBoot.Region.Header

/-!
# `EarlyBoot.Region`: regions

A region is a header together with exactly the bytes that the header declares.
Both facts travel with the region, so that every later offset is measured
against the declared end and against memory that is really there.

Main statement:

* `read_eq_ok` : a region is read exactly when its header is, and is then the
  declared part of the bytes.
-/

set_option autoImplicit false

namespace EarlyBoot

/-- A block of bytes whose header has been checked. -/
structure Region where
  header : Header
  /-- All bytes of the region, header included. -/
  bytes : ByteArray
  /-- The bytes are as many as the header declares. -/
  size_bytes : bytes.size = header.totalSize.toNat
  /-- There is room for the header and a closing tag. -/
  minTotalSize_le : minTotalSize ≤ bytes.size
  deriving DecidableEq

namespace Region

/-- A header that `Header.read` accepts declares no more bytes than there are. So the declared part
of the bytes has exactly the declared size. -/
private theorem size_extract_of_read {bytes : ByteArray} {limits : Limits} {header : Header}
    (h : Header.read bytes limits = .ok header) :
    (bytes.extract 0 header.totalSize.toNat).size = header.totalSize.toNat := by
  have hle := (Header.fault?_eq_none.mp (Header.read_eq_ok.mp h).2).2.2.2.2.2
  simp only [ByteArray.size_extract]
  omega

/-- A header that `Header.read` accepts declares room for itself and a closing tag, so the declared
part of the bytes has at least `minTotalSize` of them. -/
private theorem minTotalSize_le_of_read {bytes : ByteArray} {limits : Limits} {header : Header}
    (h : Header.read bytes limits = .ok header) :
    minTotalSize ≤ (bytes.extract 0 header.totalSize.toNat).size := by
  rw [size_extract_of_read h]
  exact (Header.fault?_eq_none.mp (Header.read_eq_ok.mp h).2).2.1

/-- The region at the start of `bytes`. -/
def read (bytes : ByteArray) (limits : Limits) : Except HeaderError Region :=
  match h : Header.read bytes limits with
  | .error e   => .error e
  | .ok header =>
      .ok {
        header
        bytes := bytes.extract 0 header.totalSize.toNat
        size_bytes := size_extract_of_read h
        minTotalSize_le := minTotalSize_le_of_read h
      }

/-- The reader `Region.read` refuses bytes exactly if `Header.read` refuses them, and for the same
reason. -/
theorem read_eq_error {bytes : ByteArray} {limits : Limits} {e : HeaderError} :
    read bytes limits = .error e ↔ Header.read bytes limits = .error e := by
  unfold read
  split <;> simp_all

/-- The reader `Region.read` succeeds exactly if `Header.read` does. The region then has that
header, and its bytes are the first `totalSize` of those that were given. -/
theorem read_eq_ok {bytes : ByteArray} {limits : Limits} {region : Region} :
    read bytes limits = .ok region ↔
      Header.read bytes limits = .ok region.header ∧
        region.bytes = bytes.extract 0 region.header.totalSize.toNat := by
  unfold read
  constructor
  · intro h
    split at h
    · simp at h
    · simp only [Except.ok.injEq] at h
      subst h
      simp_all
  · rintro ⟨hh, hb⟩
    split
    · simp_all
    · rename_i header hr
      obtain rfl : header = region.header := by simpa [hr] using hh
      cases region
      simp_all

end Region

end EarlyBoot

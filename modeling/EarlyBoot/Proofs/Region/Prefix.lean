import EarlyBoot.Bytes.Splice
import EarlyBoot.Region

/-!
# `EarlyBoot.Proofs.Region.Prefix`: how many bytes a region depends on

The header of a region is read off the first sixteen bytes. How many bytes there are only
matters for the last of its conditions, and only if the size that the header declares is
one that a region may have: any other size is refused before it is compared. Behind an
accepted header a region depends on the declared bytes, and on none that follow.

Main statements:

* `Header.fields?_extract` : a header is read off the first sixteen bytes;
* `Header.fault?_congr` : when the number of bytes does not matter;
* `Header.fault?_of_read_error`, `Header.lt_of_truncated` : where errors come from;
* `Region.read_congr` : two byte strings that start with the same region.
-/

set_option autoImplicit false

namespace EarlyBoot

namespace Bytes

/-- A field that ends inside the first `n` bytes is the same field of those bytes alone. -/
theorem field?_extract_zero (bytes : ByteArray) {n offset width : Nat} (h : offset + width ≤ n) :
    field? (bytes.extract 0 n) offset width = field? bytes offset width := by
  have hfit : offset + width ≤ (bytes.extract 0 n).size ↔ offset + width ≤ bytes.size := by
    rw [ByteArray.size_extract]
    omega
  have hcut : (bytes.extract 0 n).extract offset (offset + width) =
      bytes.extract offset (offset + width) := by
    rw [ByteArray.extract_extract, Nat.zero_add, Nat.zero_add, Nat.min_eq_left h]
  simp only [field?, hfit, hcut]

/-- A 32-bit number that ends inside the first `n` bytes is the same number of those bytes alone. -/
theorem uint32?_extract_zero (bytes : ByteArray) {n offset : Nat} (h : offset + 4 ≤ n) :
    uint32? (bytes.extract 0 n) offset = uint32? bytes offset := by
  rw [uint32?, field?_extract_zero bytes h, ← uint32?]

end Bytes

namespace Header

/-- A header is read off the first sixteen bytes; more of them make no difference. -/
theorem fields?_extract (bytes : ByteArray) {n : Nat} (h : headerSize ≤ n) :
    fields? (bytes.extract 0 n) = fields? bytes := by
  have h16 : 16 ≤ n := h
  unfold fields?
  rw [Bytes.uint32?_extract_zero bytes (by omega), Bytes.uint32?_extract_zero bytes (by omega),
    Bytes.uint32?_extract_zero bytes (by omega), Bytes.uint32?_extract_zero bytes (by omega)]

/-- The declared size is the 32-bit number behind the magic number. -/
theorem uint32?_of_fields? {bytes : ByteArray} {header : Header}
    (h : fields? bytes = some header) : Bytes.uint32? bytes 4 = some header.totalSize := by
  simp only [fields?, Option.bind_eq_bind, Option.bind_eq_some_iff, Option.pure_def,
    Option.some.injEq] at h
  obtain ⟨magic, -, totalSize, hsize, version, -, reserved, -, rfl⟩ := h
  exact hsize

/-- The declared size is one that a region may have. -/
def InRange (header : Header) (limits : Limits) : Prop :=
  minTotalSize ≤ header.totalSize.toNat ∧ header.totalSize ≤ limits.maxTotalSize

/-- The size of a header is in range exactly if `fault?` does not refuse it for being too small or
too large. -/
theorem inRange_iff {header : Header} {limits : Limits} :
    header.InRange limits ↔
      ¬ (header.totalSize.toNat < minTotalSize ∨ limits.maxTotalSize < header.totalSize) := by
  rw [InRange, not_or, Nat.not_lt, UInt32.not_lt]

/-- The number of bytes does not matter to `fault?`, if it reaches the declared size in both cases
or that size is not in range. -/
theorem fault?_congr {header : Header} {limits : Limits} {available available' : Nat}
    (h : header.InRange limits →
      header.totalSize.toNat ≤ available ∧ header.totalSize.toNat ≤ available') :
    header.fault? available limits = header.fault? available' limits := by
  unfold fault?
  by_cases hsize :
      header.totalSize.toNat < minTotalSize ∨ limits.maxTotalSize < header.totalSize
  · -- The size is refused before it is compared.
    rw [if_pos hsize, if_pos hsize]
  · obtain ⟨hreached, hreached'⟩ := h (inRange_iff.mpr hsize)
    rw [if_neg (Nat.not_lt.mpr hreached), if_neg (Nat.not_lt.mpr hreached')]

/-- No header is blamed for bytes that are too short for one; that is decided before there is a
header. -/
theorem fault?_ne_tooShort (header : Header) (available : Nat) (limits : Limits) :
    header.fault? available limits ≠ some .tooShort := by
  intro h
  unfold fault? at h
  repeat' split at h
  all_goals cases h

/-- A region is refused as cut off only if its declared size is in range and not reached. -/
theorem lt_of_truncated {header : Header} {available available' : Nat} {limits : Limits}
    {totalSize : UInt32}
    (h : header.fault? available limits = some (.truncated totalSize available')) :
    header.InRange limits ∧ available < header.totalSize.toNat := by
  unfold fault? at h
  split at h
  · cases h
  · split at h
    · cases h
    · rename_i hsize
      split at h
      · cases h
      · split at h
        · cases h
        · split at h
          · rename_i hlt
            exact ⟨inRange_iff.mpr hsize, hlt⟩
          · cases h

/-- A header that `read` accepts declares a size in range. -/
theorem inRange_of_read {bytes : ByteArray} {limits : Limits} {header : Header}
    (h : read bytes limits = .ok header) : header.InRange limits := by
  obtain ⟨-, hleast, hmost, -⟩ := fault?_eq_none.mp (read_eq_ok.mp h).2
  exact ⟨hleast, hmost⟩

/-- Take at least sixteen bytes that `read` refuses. Then they hold a header, and the reason is a
fault of that header. -/
theorem fault?_of_read_error {bytes : ByteArray} {limits : Limits} {error : HeaderError}
    (hsize : headerSize ≤ bytes.size) (h : read bytes limits = .error error) :
    ∃ header, fields? bytes = some header ∧ header.fault? bytes.size limits = some error := by
  have hsome : (fields? bytes).isSome := by
    rw [fields?_isSome, decide_eq_true_iff]
    exact hsize
  obtain ⟨header, hheader⟩ := Option.isSome_iff_exists.mp hsome
  refine ⟨header, hheader, ?_⟩
  -- With all four words read, only a fault can be the error.
  simp only [read, hheader] at h
  split at h
  · rename_i hfault
    cases h
    exact hfault
  · cases h

/-- Two strings with the same header, which has the same fault or none in both, are read alike. -/
theorem read_congr {x y : ByteArray} {limits : Limits} (hfields : fields? x = fields? y)
    (hfault : ∀ header, fields? y = some header →
      header.fault? x.size limits = header.fault? y.size limits) :
    read x limits = read y limits := by
  unfold read
  rw [hfields]
  cases hy : fields? y with
  | none => rfl
  | some header =>
      dsimp only
      rw [hfault header hy]

end Header

/-- Two strings with the same header, and behind it the same declared bytes, start with the same
region. -/
theorem Region.read_congr {x y : ByteArray} {limits : Limits}
    (hheader : Header.read x limits = Header.read y limits)
    (hbytes : ∀ header, Header.read y limits = .ok header →
      x.extract 0 header.totalSize.toNat = y.extract 0 header.totalSize.toNat) :
    read x limits = read y limits := by
  cases hread : read y limits with
  | error error => exact read_eq_error.mpr (hheader.trans (read_eq_error.mp hread))
  | ok region =>
      obtain ⟨hy, hdeclared⟩ := read_eq_ok.mp hread
      exact read_eq_ok.mpr ⟨hheader.trans hy, hdeclared.trans (hbytes _ hy).symm⟩

end EarlyBoot

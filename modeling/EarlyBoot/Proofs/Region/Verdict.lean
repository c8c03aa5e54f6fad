import EarlyBoot.Proofs.Region.Prefix
import EarlyBoot.Proofs.Region.Written

/-!
# `EarlyBoot.Proofs.Region.Verdict`: what becomes of a header

The conditions on a header stand in a list, in the order in which they are tried, each with
the error that says that it fails. The first condition that fails is the verdict on the
header. That is compared with the reader, which finds the numbers at their offsets and goes
through its checks one by one.

How many bytes there are is asked twice: first whether there are enough for a header, and
last whether there are as many as it declares. So an accepted region stays accepted when
bytes follow it. A part of it is cut off at one of the two, since all that is asked in
between is asked of the same numbers.

Main statements:

* `Header.Heads.read_eq` : a header comes to its verdict;
* `Header.read_eq_ok_iff_heads` : it is accepted exactly if all conditions hold;
* `Region.read_append` : bytes behind a region make no difference;
* `Region.read_extract` : a part of a region is refused for its length;
* `RegionWriter.heads_bytes` : a written region starts with the header of its writer;
* `Region.read_exact` : what becomes of any bytes, under any limits.
-/

set_option autoImplicit false

namespace EarlyBoot

open Bytes (le32)

namespace Header

/-- The bytes start with the four numbers of the header, each with its lowest byte first. -/
def Heads (header : Header) (bytes : ByteArray) : Prop :=
  bytes.extract 0 16 =
    le32 header.magic ++ le32 header.totalSize ++ le32 header.version ++ le32 header.reserved

/-- The conditions on a header in front of `available` bytes, in the order in which they are
tried, each with the error that it fails with. -/
def conditions (header : Header) (available : Nat) (limits : Limits) :
    List (Bool × HeaderError) :=
  [(header.magic = regionMagic, .badMagic header.magic),
    (24 ≤ header.totalSize.toNat ∧ header.totalSize ≤ limits.maxTotalSize,
      .badTotalSize header.totalSize),
    (limits.minVersion ≤ header.version, .unsupportedVersion header.version),
    (header.reserved = 0, .reservedNotZero header.reserved),
    (header.totalSize.toNat ≤ available, .truncated header.totalSize available)]

/-- What a header comes to: the first condition that fails is the error. -/
def verdict (header : Header) (available : Nat) (limits : Limits) :
    Except HeaderError Header :=
  match (header.conditions available limits).find? fun condition => !condition.1 with
  | some condition => .error condition.2
  | none           => .ok header

/-! ### The numbers of a header -/

/-- Bytes that start with a header are at least sixteen. -/
theorem Heads.size_le {header : Header} {bytes : ByteArray} (h : header.Heads bytes) :
    16 ≤ bytes.size := by
  have hsize := congrArg ByteArray.size h
  simp only [ByteArray.size_append, ByteArray.size_extract, Bytes.size_le32] at hsize
  omega

/-- The numbers that bytes start with, in the sense of `Heads`, are those that `fields?` finds. -/
theorem Heads.fields? {header : Header} {bytes : ByteArray} (h : header.Heads bytes) :
    Header.fields? bytes = some header := by
  rw [← fields?_extract bytes (Nat.le_refl headerSize), show bytes.extract 0 headerSize = _ from h]
  simp [Header.fields?, ByteArray.append_assoc, Bytes.uint32?_append_right]

/-- Sixteen bytes or more start with some header. -/
theorem exists_heads {bytes : ByteArray} (h : 16 ≤ bytes.size) :
    ∃ header : Header, header.Heads bytes := by
  obtain ⟨magic, hmagic⟩ := Bytes.exists_le32 bytes 0 (by omega)
  obtain ⟨totalSize, htotal⟩ := Bytes.exists_le32 bytes 4 (by omega)
  obtain ⟨version, hversion⟩ := Bytes.exists_le32 bytes 8 (by omega)
  obtain ⟨reserved, hreserved⟩ := Bytes.exists_le32 bytes 12 (by omega)
  refine ⟨⟨magic, totalSize, version, reserved⟩, ?_⟩
  rw [Heads, ← hmagic, ← htotal, ← hversion, ← hreserved]
  simp [ByteArray.extract_append_extract]

/-! ### The verdict -/

/-- The first condition of a list is passed over exactly if it holds. -/
theorem find?_failing_cons (holds : Bool) (error : HeaderError)
    (rest : List (Bool × HeaderError)) :
    (((holds, error) :: rest).find? fun condition => !condition.1).map Prod.snd =
      if holds = true then (rest.find? fun condition => !condition.1).map Prod.snd
      else some error := by
  cases holds <;> rfl

/-- The checks of `fault?` find the first of the six conditions that fails, in their order. -/
theorem fault?_eq_find? (header : Header) (available : Nat) (limits : Limits) :
    header.fault? available limits =
      ((header.conditions available limits).find? fun condition => !condition.1).map Prod.snd := by
  have hrange : header.totalSize.toNat < minTotalSize ∨ limits.maxTotalSize < header.totalSize ↔
      ¬ (24 ≤ header.totalSize.toNat ∧ header.totalSize ≤ limits.maxTotalSize) := by
    rw [Decidable.not_and_iff_not_or_not, Nat.not_le, UInt32.not_le]
    rfl
  -- The checks ask whether a condition fails, the list says whether it holds.
  simp only [fault?, hrange, ne_eq, ite_not]
  simp only [conditions, find?_failing_cons, decide_eq_true_eq, List.find?_nil, Option.map_none]
  simp only [← UInt32.not_le, ← Nat.not_le, ite_not]

/-- Bytes that start with a header are read as `Header.verdict` says of that header. -/
theorem Heads.read_eq {header : Header} {bytes : ByteArray} (h : header.Heads bytes)
    (limits : Limits) : read bytes limits = header.verdict bytes.size limits := by
  simp only [read, h.fields?, fault?_eq_find?, verdict]
  cases (header.conditions bytes.size limits).find? fun condition => !condition.1 <;> rfl

/-- Bytes in which `fields?` finds a header start with it, in the sense of `Heads`. -/
theorem heads_of_fields? {header : Header} {bytes : ByteArray}
    (h : Header.fields? bytes = some header) : header.Heads bytes := by
  have hsize := fields?_isSome bytes
  rw [h] at hsize
  obtain ⟨found, hfound⟩ := exists_heads (of_decide_eq_true hsize.symm)
  rw [hfound.fields?] at h
  exact Option.some.inj h ▸ hfound

/-- A header is accepted exactly if the bytes start with it and all six conditions hold. -/
theorem read_eq_ok_iff_heads {bytes : ByteArray} {limits : Limits} {header : Header} :
    read bytes limits = .ok header ↔
      header.Heads bytes ∧ header.magic = regionMagic ∧
        24 ≤ header.totalSize.toNat ∧ header.totalSize ≤ limits.maxTotalSize ∧
        limits.minVersion ≤ header.version ∧ header.reserved = 0 ∧
        header.totalSize.toNat ≤ bytes.size := by
  rw [read_eq_ok, fault?_eq_none]
  exact and_congr_left' ⟨heads_of_fields?, Heads.fields?⟩

/-- Fewer than sixteen bytes are too short, and nothing else is looked at. -/
theorem read_of_lt {bytes : ByteArray} (h : bytes.size < 16) (limits : Limits) :
    read bytes limits = .error .tooShort := by
  cases hfields : Header.fields? bytes with
  | none => rw [read, hfields]
  | some header => exact absurd (heads_of_fields? hfields).size_le (Nat.not_le.mpr h)

/-! ### More bytes, and fewer -/

/-- A header that is accepted among enough bytes is refused among fewer, and only for being cut
off. -/
theorem fault?_of_accepted {header : Header} {available fewer : Nat} {limits : Limits}
    (h : header.fault? available limits = none) (hfewer : fewer < header.totalSize.toNat) :
    header.fault? fewer limits = some (.truncated header.totalSize fewer) := by
  obtain ⟨hmagic, hleast, hmost, hversion, hreserved, -⟩ := fault?_eq_none.mp h
  have hrange := inRange_iff.mp ⟨hleast, hmost⟩
  rw [fault?, if_neg (not_not_intro hmagic), if_neg hrange, if_neg (UInt32.not_lt.mpr hversion),
    if_neg (not_not_intro hreserved), if_pos hfewer]

end Header

namespace Region

/-- Bytes that follow an accepted region make no difference to it. -/
theorem read_append {bytes : ByteArray} {limits : Limits} {region : Region}
    (h : read bytes limits = .ok region) (more : ByteArray) :
    read (bytes ++ more) limits = .ok region := by
  obtain ⟨hread, hbytes⟩ := read_eq_ok.mp h
  obtain ⟨hheads, hmagic, hleast, hmost, hversion, hreserved, hsize⟩ :=
    Header.read_eq_ok_iff_heads.mp hread
  -- What is looked at lies in front of the bytes that were added.
  have hcut {n : Nat} (hn : n ≤ bytes.size) :
      (bytes ++ more).extract 0 n = bytes.extract 0 n := by
    rw [ByteArray.extract_append, Nat.sub_eq_zero_of_le hn]
    simp
  have hheads' : region.header.Heads (bytes ++ more) := by
    rw [Header.Heads, hcut hheads.size_le]
    exact hheads
  have hsize' : region.header.totalSize.toNat ≤ (bytes ++ more).size := by
    rw [ByteArray.size_append]
    omega
  refine read_eq_ok.mpr ⟨?_, ?_⟩
  · exact Header.read_eq_ok_iff_heads.mpr
      ⟨hheads', hmagic, hleast, hmost, hversion, hreserved, hsize'⟩
  · rw [hbytes, hcut hsize]

/-- A smaller number of the bytes of an accepted region is refused: as too short below sixteen, and
as cut off otherwise. -/
theorem read_extract {bytes : ByteArray} {limits : Limits} {region : Region}
    (h : read bytes limits = .ok region) {n : Nat} (hn : n < region.header.totalSize.toNat) :
    read (bytes.extract 0 n) limits =
      .error (if n < 16 then .tooShort else .truncated region.header.totalSize n) := by
  obtain ⟨hfields, hfault⟩ := Header.read_eq_ok.mp (read_eq_ok.mp h).1
  have htotal := (Header.fault?_eq_none.mp hfault).2.2.2.2.2
  have hsize : (bytes.extract 0 n).size = n := by
    rw [ByteArray.size_extract]
    omega
  refine read_eq_error.mpr ?_
  by_cases hshort : n < 16
  · rw [if_pos hshort, Header.read_of_lt (by omega)]
  · -- The numbers are all there, and are asked the same as before.
    have hfields' : Header.fields? (bytes.extract 0 n) = some region.header := by
      rw [Header.fields?_extract bytes (Nat.le_of_not_lt hshort), hfields]
    simp only [if_neg hshort, Header.read, hfields', hsize, Header.fault?_of_accepted hfault hn]

end Region

/-! ### Regions that were written -/

namespace RegionWriter

/-- The header that a writer puts in front of its tags. -/
def header (w : RegionWriter) : Header where
  magic := w.magic
  totalSize := w.totalSize?.getD (length32 (headerSize + w.tags.size))
  version := w.version
  reserved := w.reserved

/-- A written region starts with the header of its writer, overrides included. -/
theorem heads_bytes (w : RegionWriter) : w.header.Heads w.bytes := by
  rw [Header.Heads, bytes, ByteArray.extract_append_eq_left (by simp)]
  rfl

end RegionWriter

namespace Region

/-- What `Header.read` makes of any bytes. Fewer than sixteen are too short. All others start with a
header, which comes to the `verdict` of the six conditions in their order, and is accepted exactly
if all hold. Bytes that follow an accepted region make no difference, and any smaller number of its
bytes is refused. A region that was written with any numbers in front is read as the verdict on
these numbers says. -/
theorem read_exact (bytes : ByteArray) (limits : Limits) :
    (bytes.size < 16 → Header.read bytes limits = .error .tooShort) ∧
    (16 ≤ bytes.size → ∃ header : Header, header.Heads bytes) ∧
    (∀ header : Header, header.Heads bytes →
      Header.read bytes limits = header.verdict bytes.size limits) ∧
    (∀ header, Header.read bytes limits = .ok header ↔
      header.Heads bytes ∧ header.magic = regionMagic ∧
        24 ≤ header.totalSize.toNat ∧ header.totalSize ≤ limits.maxTotalSize ∧
        limits.minVersion ≤ header.version ∧ header.reserved = 0 ∧
        header.totalSize.toNat ≤ bytes.size) ∧
    (∀ region, read bytes limits = .ok region →
      (∀ more, read (bytes ++ more) limits = .ok region) ∧
      ∀ n, n < region.header.totalSize.toNat →
        read (bytes.extract 0 n) limits =
          .error (if n < 16 then .tooShort else .truncated region.header.totalSize n)) ∧
    ∀ w : RegionWriter, Header.read w.closedBytes limits =
      Header.verdict
        { magic := w.magic
          totalSize := w.totalSize?.getD (RegionWriter.length32 w.closedBytes.size)
          version := w.version
          reserved := w.reserved }
        w.closedBytes.size limits := by
  refine ⟨fun h => Header.read_of_lt h limits, Header.exists_heads,
    fun header hheads => hheads.read_eq limits, fun header => Header.read_eq_ok_iff_heads,
    fun region h => ⟨read_append h, fun n => read_extract h⟩, fun w => ?_⟩
  have hread := w.close.heads_bytes.read_eq limits
  rwa [RegionWriter.header, ← RegionWriter.size_bytes] at hread

end Region

end EarlyBoot

import EarlyBoot.Proofs.BootInfo.Reparse
import EarlyBoot.Proofs.Bytes.Stretch
import EarlyBoot.Proofs.Region.Prefix
import EarlyBoot.Startup.Handoff

/-!
# `EarlyBoot.Proofs.Startup.Borrowed`: the borrowed bytes are enough

Behind a pointer there is more memory than a region takes. As many bytes are borrowed as
the header states, if a region may have that size, and otherwise just the header. Nothing
is lost by that: more bytes would be parsed to the same outcome, with the same log.

If the stated size is in range, the borrowed bytes hold all that a region with this header
can have. If it is not, the header is refused before it matters how many bytes there are.
Either way the header is not found too short, and the region is not found to be cut off.

Main statements:

* `statedLength_eq` : how many bytes are borrowed for a header;
* `read_extract_statedLength` : the borrowed bytes are read like all of them;
* `extract_borrow` : what is borrowed is the start of what could be borrowed;
* `load_borrowed` : the borrowed bytes are enough to be parsed and loaded.
-/

set_option autoImplicit false

namespace EarlyBoot

namespace Startup

/-! ### How many bytes are borrowed -/

/-- The bytes that `statedLength` borrows for a header are those that it declares, if that size is
in range, and the header alone otherwise. -/
theorem statedLength_eq {bytes : ByteArray} {header : Header}
    (h : Header.fields? bytes = some header) :
    (header.InRange .standard → statedLength bytes = header.totalSize.toNat) ∧
      (¬ header.InRange .standard → statedLength bytes = headerSize) := by
  rw [statedLength, Header.uint32?_of_fields? h]
  exact ⟨fun hrange => if_pos hrange, fun hrange => if_neg hrange⟩

/-- At least the header is borrowed. -/
theorem headerSize_le_statedLength (bytes : ByteArray) : headerSize ≤ statedLength bytes := by
  unfold statedLength
  split
  · split
    · rename_i hrange
      exact Nat.le_trans (by decide) hrange.1
    · exact Nat.le_refl headerSize
  · exact Nat.le_refl headerSize

/-- How much is borrowed is told by the header alone. -/
theorem statedLength_extract (bytes : ByteArray) {n : Nat} (h : headerSize ≤ n) :
    statedLength (bytes.extract 0 n) = statedLength bytes := by
  have h16 : 16 ≤ n := h
  rw [statedLength, Bytes.uint32?_extract_zero bytes (by omega), ← statedLength]

/-! ### What is read off them -/

/-- The borrowed bytes start with the region that all bytes start with, or are refused for the same
reason. -/
theorem read_extract_statedLength {bytes : ByteArray} (h : statedLength bytes ≤ bytes.size) :
    Region.read (bytes.extract 0 (statedLength bytes)) .standard = Region.read bytes .standard := by
  have hborrowed : (bytes.extract 0 (statedLength bytes)).size = statedLength bytes := by
    rw [ByteArray.size_extract]
    omega
  apply Region.read_congr
  · refine Header.read_congr (Header.fields?_extract bytes (headerSize_le_statedLength bytes)) ?_
    intro header hheader
    apply Header.fault?_congr
    intro hrange
    have hstated := (statedLength_eq hheader).1 hrange
    omega
  · intro header hread
    -- An accepted header states the size of its region.
    have hstated :=
      (statedLength_eq (Header.read_eq_ok.mp hread).1).1 (Header.inRange_of_read hread)
    rw [ByteArray.extract_extract, hstated, Nat.zero_add, Nat.zero_add, Nat.min_self]

/-- Take bytes that are all there, as many as the header states. Then a header that is refused is
not too short, and the region is not cut off. -/
theorem ne_of_read_error {bytes : ByteArray} {error : HeaderError}
    (hheader : headerSize ≤ bytes.size) (hstated : statedLength bytes ≤ bytes.size)
    (h : Header.read bytes .standard = .error error) :
    error ≠ .tooShort ∧ ∀ totalSize available, error ≠ .truncated totalSize available := by
  obtain ⟨header, hfields, hfault⟩ := Header.fault?_of_read_error hheader h
  constructor
  · rintro rfl
    exact Header.fault?_ne_tooShort header bytes.size .standard hfault
  · rintro totalSize available rfl
    obtain ⟨hrange, hlt⟩ := Header.lt_of_truncated hfault
    have hlength := (statedLength_eq hfields).1 hrange
    omega

/-! ### What is borrowed from a memory -/

/-- What `borrow` gives are the bytes of the memory, and zeros behind them. -/
theorem getElem?_borrow (memory : ByteArray) (n i : Nat) :
    (borrow memory n)[i]? = if i < n then some (memory[i]?.getD 0) else none := by
  rw [borrow, Bytes.getElem?_append, Bytes.getElem?_filled, Bytes.getElem?_extract_zero,
    ByteArray.size_extract]
  by_cases hmemory : i < memory.size
  · by_cases hi : i < n
    · rw [if_pos (by omega), if_pos hi, if_pos hi, getElem?_pos memory i hmemory, Option.getD_some]
    · rw [if_neg (by omega), if_neg (by omega), if_neg hi]
  · rw [if_neg (by omega), getElem?_neg memory i hmemory, Option.getD_none]
    by_cases hi : i < n
    · rw [if_pos (by omega), if_pos hi]
    · rw [if_neg (by omega), if_neg hi]

/-- What is borrowed is the start of anything longer that could be borrowed. -/
theorem extract_borrow (memory : ByteArray) {m n : Nat} (h : m ≤ n) :
    (borrow memory n).extract 0 m = borrow memory m := by
  apply Bytes.ext_getElem?
  intro i
  rw [Bytes.getElem?_extract_zero, getElem?_borrow, getElem?_borrow]
  by_cases hi : i < m
  · rw [if_pos hi, if_pos hi, if_pos (Nat.lt_of_lt_of_le hi h)]
  · rw [if_neg hi, if_neg hi]

/-- The region behind a pointer is the start of anything longer that could be borrowed there, cut to
the size that is stated in it. -/
theorem borrowRegion_eq (memory : ByteArray) {n : Nat} (h : headerSize ≤ n) :
    borrowRegion (some memory) = .ok (borrow memory (statedLength (borrow memory n))) := by
  rw [borrowRegion, ← extract_borrow memory h, statedLength_extract _ (Nat.le_refl _)]

/-! ### What is loaded -/

/-- What `load` returns is what `parse` returns, if there is a framebuffer in the record. -/
theorem load_value (bytes : ByteArray) :
    (load bytes).value =
      match (BootInfo.parse bytes .standard).value with
      | .error error => .error (.parse error)
      | .ok info     => if info.framebuffer.isSome then .ok info else .error .noFramebuffer := by
  unfold load
  rcases BootInfo.parse bytes .standard with ⟨value, records⟩
  cases value with
  | error error => rfl
  | ok info =>
      dsimp only
      split <;> rfl

/-- As many bytes as a header states are enough. Take bytes that have as many: cut to
`statedLength`, they are parsed to the same outcome with the same log, and the header is found
neither too short nor cut off. So behind every pointer `load` of the borrowed region returns what it
returns for anything longer that could be borrowed there. -/
theorem load_borrowed :
    (∀ bytes : ByteArray, headerSize ≤ bytes.size → statedLength bytes ≤ bytes.size →
      BootInfo.parse (bytes.extract 0 (statedLength bytes)) .standard =
          BootInfo.parse bytes .standard ∧
        ∀ error, (BootInfo.parse bytes .standard).value = .error (.header error) →
          error ≠ .tooShort ∧ ∀ totalSize available, error ≠ .truncated totalSize available) ∧
    ∀ memory : ByteArray, ∃ region, borrowRegion (some memory) = .ok region ∧
      ∀ n, region.size ≤ n → (load region).value = (load (borrow memory n)).value := by
  have hparse {bytes : ByteArray} (h : statedLength bytes ≤ bytes.size) :
      BootInfo.parse (bytes.extract 0 (statedLength bytes)) .standard =
        BootInfo.parse bytes .standard := by
    rw [BootInfo.parse, read_extract_statedLength h, ← BootInfo.parse]
  constructor
  · intro bytes hheader hstated
    refine ⟨hparse hstated, ?_⟩
    intro error herror
    exact ne_of_read_error hheader hstated (BootInfo.read_of_parse_header herror)
  · intro memory
    refine ⟨_, borrowRegion_eq memory (Nat.le_refl headerSize), ?_⟩
    intro n hn
    rw [size_borrow] at hn
    -- The header states the same in anything that holds it.
    have hlong : headerSize ≤ n := Nat.le_trans (headerSize_le_statedLength _) hn
    have hstated : statedLength (borrow memory headerSize) = statedLength (borrow memory n) := by
      rw [← extract_borrow memory hlong, statedLength_extract _ (Nat.le_refl _)]
    have hfit : statedLength (borrow memory n) ≤ (borrow memory n).size := by
      rw [size_borrow, ← hstated]
      exact hn
    rw [load_value, load_value, hstated, ← extract_borrow memory (hstated ▸ hn), hparse hfit]

/-- A header that states one byte more than a region may have, and four bytes behind it. -/
def oversizedBytes : ByteArray :=
  [0x4B, 0x4F, 0x42, 0x44, 0x01, 0x00, 0x00, 0x01, 0, 0, 0, 0, 9, 0, 0, 0,
    0xFF, 0xFF, 0xFF, 0xFF].toByteArray

/-- A region of twenty-four bytes, and what looks like a tag behind it. -/
def trailedBytes : ByteArray :=
  [0x4B, 0x4F, 0x42, 0x44, 24, 0, 0, 0, 1, 0, 0, 0, 0, 0, 0, 0,
    0x00, 0x00, 0, 0, 8, 0, 0, 0, 0x05, 0x00, 7, 0, 9, 0, 0, 0, 0xFF].toByteArray

/-- Take `oversizedBytes`, whose header states a size out of range, and `trailedBytes`, which go on
behind their region. Then, by `load_borrowed`, the header of the first is refused for the size
alone, and the second are loaded like the 24 bytes that are borrowed of them. -/
theorem load_borrowed_misleading :
    BootInfo.parse (oversizedBytes.extract 0 16) .standard =
        BootInfo.parse oversizedBytes .standard ∧
      (BootInfo.parse oversizedBytes .standard).value =
        .error (.header (.badTotalSize 0x01000001)) ∧
      ∃ region, borrowRegion (some trailedBytes) = .ok region ∧ region.size = 24 ∧
        (load region).value = (load (borrow trailedBytes 33)).value := by
  have hstated : statedLength oversizedBytes = 16 := by decide
  have hrefused : Region.read oversizedBytes .standard = .error (.badTotalSize 0x01000001) :=
    Region.read_eq_error.mpr rfl
  obtain ⟨hparse, -⟩ := load_borrowed.1 oversizedBytes (by decide) (by decide)
  obtain ⟨region, hregion, hload⟩ := load_borrowed.2 trailedBytes
  have hsize : region.size = 24 := by
    rw [borrowRegion, Except.ok.injEq] at hregion
    subst hregion
    decide
  rw [hstated] at hparse
  refine ⟨hparse, ?_, region, hregion, hsize, hload 33 (by omega)⟩
  rw [BootInfo.parse_of_header_error hrefused]

end Startup

end EarlyBoot

import EarlyBoot.Proofs.Record.Written
import EarlyBoot.Proofs.Text.Chunks
import Mathlib.Data.List.TakeWhile

/-!
# `EarlyBoot.Proofs.Record.Texts`: the text of a tag

A text tag is read up to its first NUL, which has to be one of the bytes that the tag
declares: neither the padding behind them nor the next tag counts. What is read may be any
bytes but NUL. They are handed out as a text if they are well formed, and are shown in any
case, malformed sequences replaced. What is shown is well formed, and has no NUL, so it
comes back as it is if it is written into a region and read again.

Main statements:

* `RawTag.zero_mem_payload_iff` : the NUL is looked for among the declared bytes;
* `Laid.exists_says` : the tag at an index is the one that was written there;
* `BootText.read_commandLine` : a text without a NUL is read as it was written;
* `BootText.decode_faithful` : when a tag is accepted as a text, and what is known then.
-/

set_option autoImplicit false

namespace EarlyBoot

open RegionWriter (writeTag)
open Text (Chunk Chunked)

/-! ### The first NUL -/

/-- A NUL of the payload is one of the declared bytes of the tag, behind its header. -/
theorem RawTag.zero_mem_payload_iff (tag : RawTag) :
    0 ∈ tag.payload.data.toList ↔
      ∃ i, 8 ≤ i ∧ i < tag.size.toNat ∧ tag.bytes[i]? = some 0 := by
  have hpayload : tag.payload.data.toList = Bytes.bytesFrom tag.bytes 8 :=
    Bytes.toList_extract_size tag.bytes 8
  have hsize : tag.bytes.size = tag.size.toNat := tag.size_bytes
  simp only [hpayload, List.mem_iff_getElem?, Bytes.getElem?_bytesFrom]
  constructor
  · rintro ⟨n, hn⟩
    obtain ⟨hlt, -⟩ := getElem?_eq_some_iff.mp hn
    exact ⟨8 + n, Nat.le_add_right 8 n, hsize ▸ hlt, hn⟩
  · rintro ⟨i, hle, -, hi⟩
    exact ⟨i - 8, by rwa [Nat.add_sub_cancel' hle]⟩

namespace BootText

/-- A text that `decode` accepts has a NUL in its payload, and holds what stands in front of the
first. -/
theorem eq_of_decode {tag : RawTag} {text : BootText} (h : decode tag = .ok text) :
    0 ∈ tag.payload.data.toList ∧
      text = { tag, bytes := (tag.payload.data.toList.takeWhile (· ≠ 0)).toByteArray } := by
  by_cases hzero : 0 ∈ tag.payload.data.toList
  · rw [decode_of_mem hzero] at h
    exact ⟨hzero, (Except.ok.inj h).symm⟩
  · rw [decode_of_not_mem (of_decode h).2 hzero] at h
    cases h

/-- A list with a NUL is the bytes in front of the first NUL, that NUL, and some rest. -/
theorem exists_eq_takeWhile_append {l : List UInt8} (h : 0 ∈ l) :
    ∃ rest, l = l.takeWhile (· ≠ 0) ++ 0 :: rest := by
  induction l with
  | nil => cases h
  | cons a l ih =>
      by_cases ha : a = 0
      · subst ha
        exact ⟨l, rfl⟩
      · obtain ⟨rest, hrest⟩ := ih ((List.mem_cons.mp h).resolve_left (Ne.symm ha))
        have hne : decide (a ≠ 0) = true := decide_eq_true ha
        refine ⟨rest, ?_⟩
        rw [List.takeWhile_cons, hne, if_pos rfl, List.cons_append, ← hrest]

/-- The bytes of a text that `decode` accepts have no NUL, and the payload goes on with one. -/
theorem terminated_of_decode {tag : RawTag} {text : BootText} (h : decode tag = .ok text) :
    0 ∉ text.bytes.data.toList ∧
      ∃ rest, tag.payload = text.bytes ++ ([0].toByteArray ++ rest) := by
  obtain ⟨hzero, rfl⟩ := eq_of_decode h
  rw [List.data_toByteArray, List.toList_toArray]
  constructor
  · intro hmem
    have hne := List.mem_takeWhile_imp hmem
    exact absurd hne (by decide)
  · -- The text ends in front of the first zero, which the payload is known to have.
    obtain ⟨rest, hrest⟩ := exists_eq_takeWhile_append hzero
    refine ⟨rest.toByteArray, ?_⟩
    apply ByteArray.ext
    apply Array.toList_inj.mp
    rw [← List.toByteArray_append, ← List.toByteArray_append, List.data_toByteArray,
      List.toList_toArray]
    exact hrest

end BootText

/-! ### A text that is written -/

/-- The tag at an index says the source that was laid out there. -/
theorem Laid.exists_says {offset : Nat} {sources : List TagSource} {tags : List RawTag}
    (h : Laid offset sources tags) {i : Nat} {s : TagSource} (hs : sources[i]? = some s) :
    ∃ tag, tags[i]? = some tag ∧ tag.Says s := by
  induction h generalizing i with
  | nil => cases hs
  | @cons _ _ _ tag _ _ hsaid _ ih =>
      cases i with
      | zero => exact ⟨tag, rfl, Option.some.inj hs ▸ hsaid⟩
      | succ i => exact ih hs

namespace BootText

/-- A text without a NUL is written as it is. -/
theorem textBytes_eq {content : String} (h : 0 ∉ content.toUTF8.data.toList) :
    Contents.textBytes content = content.toUTF8 := by
  have hall : content.toUTF8.data.toList.takeWhile (· ≠ 0) = content.toUTF8.data.toList :=
    List.takeWhile_eq_self_iff.mpr fun b hb => decide_eq_true fun hzero => h (hzero ▸ hb)
  apply ByteArray.ext
  rw [Contents.textBytes, hall, List.data_toByteArray, Array.toArray_toList]

/-- Take a text without a NUL, written as the command line between any other tags. Then its tag is
found at its index, `decode` accepts it, and `string?` reads the text back. -/
theorem read_commandLine {content : String} (hzero : 0 ∉ content.toUTF8.data.toList)
    {front back : List TagSource} (hopen : ∀ s ∈ front ++ back, s.code ≠ 0)
    (hsize : (back.foldl writeTag
        ((front.foldl writeTag .empty).commandLine content)).closedBytes.size ≤
      Limits.standard.maxTotalSize.toNat) :
    ∃ region tag text,
      Region.read (back.foldl writeTag
        ((front.foldl writeTag .empty).commandLine content)).closedBytes .standard = .ok region ∧
      region.tags[front.length]? = some tag ∧ tag.kind = .commandLine ∧
      decode tag = .ok text ∧ text.string? = some content := by
  let line : TagSource := { code := TagKind.commandLine.code, payload := content.toUTF8.push 0 }
  -- The command line is one more tag, behind those in front of it.
  have hsources : back.foldl writeTag ((front.foldl writeTag .empty).commandLine content) =
      (front ++ line :: back).foldl writeTag .empty := by
    rw [List.foldl_append, List.foldl_cons]
    rfl
  have hall : ∀ s ∈ front ++ line :: back, s.code ≠ 0 := by
    intro s hs
    rcases List.mem_append.mp hs with hfront | hrest
    · exact hopen s (List.mem_append_left back hfront)
    · rcases List.mem_cons.mp hrest with rfl | hback
      · show TagKind.commandLine.code ≠ 0
        decide
      · exact hopen s (List.mem_append_right front hback)
  have hlast : TagSource.closing.code = 0 := rfl
  rw [hsources, RegionWriter.closedBytes_foldl] at hsize ⊢
  obtain ⟨region, hread, -, hlaid⟩ := Region.read_written hall hlast hsize
  obtain ⟨tag, htag, hsaid⟩ := hlaid.exists_says (i := front.length) (s := line) (by simp)
  refine ⟨region, tag, _, hread, htag, hsaid.kind_eq, decode_carries hsaid.carries, ?_⟩
  rw [string?_eq_some]
  exact textBytes_eq hzero

/-! ### What is known of an accepted text -/

/-- What an accepted text is, and what it is shown as. -/
structure Faithful (text : BootText) : Prop where
  /-- There is no NUL in the text. -/
  zero_not_mem : 0 ∉ text.bytes.data.toList
  /-- The payload of its tag starts with the text and a NUL. -/
  terminated : ∃ rest, text.tag.payload = text.bytes ++ ([0].toByteArray ++ rest)
  /-- It is handed out exactly if its bytes are the encoding of what is handed out. -/
  string?_iff : ∀ s, text.string? = some s ↔ text.bytes = s.toUTF8
  /-- What is handed out is what is shown. -/
  shown_eq : ∀ s, text.string? = some s → text.shown = s
  /-- It is made of chunks in one way, and shown with one replacement character for each
  malformed sequence. -/
  chunks : ∃ chunks, Chunked text.bytes.data.toList chunks ∧
    (∀ other, Chunked text.bytes.data.toList other → other = chunks) ∧
    text.shown = String.ofList (chunks.flatMap Chunk.shown)
  /-- What is shown, written as the command line of a region that is not too large, is read
  as it is. -/
  written : ∀ front back : List TagSource, (∀ s ∈ front ++ back, s.code ≠ 0) →
    let bytes := (back.foldl writeTag
      ((front.foldl writeTag .empty).commandLine text.shown)).closedBytes
    bytes.size ≤ 16 * 1024 * 1024 →
    ∃ region tag again, Region.read bytes .standard = .ok region ∧
      region.tags[front.length]? = some tag ∧ tag.kind = .commandLine ∧
      decode tag = .ok again ∧ again.string? = some text.shown

/-- A text that `decode` accepts is `Faithful`: its strict and its lossy reading are those of its
bytes, and it can be written and read back. -/
theorem faithful_of_decode {tag : RawTag} {text : BootText} (h : decode tag = .ok text) :
    text.Faithful := by
  obtain ⟨hzero, hterminated⟩ := terminated_of_decode h
  obtain ⟨rfl, -⟩ := of_decode h
  exact {
    zero_not_mem := hzero
    terminated := hterminated
    string?_iff := fun _ => string?_eq_some
    shown_eq := fun _ => shown_of_string?
    chunks := Text.lossy_eq_chunks text.bytes
    written := fun _ _ hopen hsize =>
      read_commandLine (Text.zero_not_mem_lossy hzero) hopen hsize
  }

/-- Every tag is one of three: too small, without a NUL behind its header, or accepted. -/
theorem decode_cases (tag : RawTag) :
    (tag.size.toNat < 9 ∧ decode tag = .error (.tooSmall tag.size 9)) ∨
    (9 ≤ tag.size.toNat ∧ 0 ∉ tag.payload.data.toList ∧ decode tag = .error .unterminated) ∨
    (9 ≤ tag.size.toNat ∧ 0 ∈ tag.payload.data.toList ∧ ∃ text, decode tag = .ok text) := by
  rcases Nat.lt_or_ge tag.size.toNat 9 with hlt | hsize
  · exact .inl ⟨hlt, decode_of_lt hlt⟩
  · by_cases hmem : 0 ∈ tag.payload.data.toList
    · exact .inr (.inr ⟨hsize, hmem, _, decode_of_mem hmem⟩)
    · exact .inr (.inl ⟨hsize, hmem, decode_of_not_mem hsize hmem⟩)

/-- What `BootText.decode` makes of any tag. It refuses the tag as too small below nine bytes, and
as unterminated if none of the declared bytes behind the header is a NUL. Any other tag is accepted,
and the text is `Faithful`: the bytes in front of the first NUL, read strictly by `string?`, and
shown with replacement characters as the Unicode standard recommends. -/
theorem decode_faithful (tag : RawTag) :
    (decode tag = .error (.tooSmall tag.size 9) ↔ tag.size.toNat < 9) ∧
    (decode tag = .error .unterminated ↔
      9 ≤ tag.size.toNat ∧ ∀ i, 8 ≤ i → i < tag.size.toNat → tag.bytes[i]? ≠ some 0) ∧
    ((∃ text, decode tag = .ok text) ↔
      9 ≤ tag.size.toNat ∧ ∃ i, 8 ≤ i ∧ i < tag.size.toNat ∧ tag.bytes[i]? = some 0) ∧
    ∀ text, decode tag = .ok text → text.tag = tag ∧ text.Faithful := by
  have hnone : (∀ i, 8 ≤ i → i < tag.size.toNat → tag.bytes[i]? ≠ some 0) ↔
      0 ∉ tag.payload.data.toList := by
    rw [tag.zero_mem_payload_iff]
    simp only [not_exists, not_and, ne_eq]
  -- Which of the three results there is can be said by cases, apart from what is accepted.
  rw [hnone, ← tag.zero_mem_payload_iff, ← and_assoc, ← and_assoc]
  refine ⟨?_, fun text h => ⟨(of_decode h).1, faithful_of_decode h⟩⟩
  rcases decode_cases tag with ⟨hlt, h⟩ | ⟨hsize, hmem, h⟩ | ⟨hsize, hmem, text, h⟩
  · rw [h]
    simp [hlt, Nat.not_le.mpr hlt]
  · rw [h]
    simp [hsize, hmem]
  · rw [h]
    simp [hsize, hmem]

end BootText

end EarlyBoot

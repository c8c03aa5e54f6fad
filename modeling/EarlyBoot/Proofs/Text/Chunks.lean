import EarlyBoot.Proofs.Bytes.Stretch
import EarlyBoot.Proofs.Text.Starts

/-!
# `EarlyBoot.Proofs.Text.Chunks`: malformed text as the Unicode standard shows it

The standard says what to show for bytes that are not well formed without saying how to
scan them. A byte string is text, then a malformed sequence, then text again, and so on.
Text goes on for as long as there are characters (`LongestText`). A malformed sequence is
a maximal subpart: it goes on for as long as the bytes are the first ones of some
character's encoding, and is a single byte if they never are (`MaximalSubpart`). Each
byte string is made of such chunks in one way only (`Chunked.unique`).

`lossy` cuts bytes into single characters and malformed pieces, by a table for the first
two or three bytes. Its pieces are these chunks.

Main statements:

* `longestText_of_no_start`, `maximalSubpart_take` : where no character starts, text ends,
  and as many bytes are malformed as the table says;
* `Chunked.unique` : the chunks of a byte string are told by its bytes;
* `lossy_eq_chunks` : each malformed sequence is shown as one replacement character;
* `zero_not_mem_lossy` : no NUL is shown where there is none.
-/

set_option autoImplicit false

namespace EarlyBoot.Text

open Bytes (bytesFrom)
open String (utf8EncodeChar)

/-! ### Chunks -/

/-- The bytes of characters, one after the other. -/
def encode (cs : List Char) : List UInt8 :=
  cs.flatMap utf8EncodeChar

/-- The encoding of characters is that of the first and then that of the others. -/
theorem encode_cons (c : Char) (cs : List Char) :
    encode (c :: cs) = utf8EncodeChar c ++ encode cs :=
  List.flatMap_cons

/-- The encoding of characters is that of all but the last and then that of the last. -/
theorem encode_concat (cs : List Char) (c : Char) :
    encode (cs ++ [c]) = encode cs ++ utf8EncodeChar c := by
  rw [encode, List.flatMap_append, List.flatMap_singleton, encode]

/-- Text, and malformed bytes behind it; none at the end of a byte string. -/
structure Chunk where
  text : List Char
  malformed : List UInt8

/-- What a chunk is shown as: its text, and one replacement character for what is behind. -/
def Chunk.shown (chunk : Chunk) : List Char :=
  chunk.text ++ if chunk.malformed = [] then [] else ['\uFFFD']

/-- No longer text has an encoding that `bytes` start with. -/
structure LongestText (bytes : List UInt8) (text : List Char) : Prop where
  isPrefix : encode text <+: bytes
  longest : ∀ other, encode other <+: bytes → (encode other).length ≤ (encode text).length

/-- `part` is the start of a character's encoding, or one byte, and no longer part of `bytes`
is the start of a character's encoding. -/
structure MaximalSubpart (bytes part : List UInt8) : Prop where
  ne_nil : part ≠ []
  isPrefix : part <+: bytes
  short : part.length = 1 ∨ ∃ c, part <+: utf8EncodeChar c
  longest : ∀ other c, other <+: bytes → other <+: utf8EncodeChar c → other.length ≤ part.length

/-- The chunks that bytes are made of. -/
inductive Chunked : List UInt8 → List Chunk → Prop where
  | done {bytes : List UInt8} : bytes = [] → Chunked bytes []
  | last {bytes : List UInt8} {text : List Char} : text ≠ [] → bytes = encode text →
      Chunked bytes [{ text, malformed := [] }]
  | chunk {bytes malformed rest : List UInt8} {text : List Char} {chunks : List Chunk} :
      bytes = encode text ++ (malformed ++ rest) → LongestText bytes text →
      MaximalSubpart (malformed ++ rest) malformed → Chunked rest chunks →
      Chunked bytes ({ text, malformed } :: chunks)

/-! ### The chunks are told by the bytes -/

/-- Bytes start with the encoding of at most one character. -/
theorem encodeChar_append_inj {c d : Char} {l m : List UInt8}
    (h : utf8EncodeChar c ++ l = utf8EncodeChar d ++ m) : c = d ∧ l = m := by
  have hdecode (e : Char) (k : List UInt8) :
      (utf8EncodeChar e ++ k).toByteArray.utf8DecodeChar? 0 = some e := by
    rw [List.toByteArray_append]
    exact ByteArray.utf8DecodeChar?_utf8EncodeChar_append
  have hchar : some c = some d := by rw [← hdecode c l, h, hdecode d m]
  obtain rfl := Option.some.inj hchar
  exact ⟨rfl, List.append_cancel_left h⟩

/-- Different characters have different encodings. -/
theorem encode_inj {cs ds : List Char} (h : encode cs = encode ds) : cs = ds := by
  have hbytes : (String.ofList cs).toByteArray = (String.ofList ds).toByteArray := by
    rw [String.toByteArray_ofList, String.toByteArray_ofList]
    exact congrArg List.toByteArray h
  exact String.ofList_injective (String.toByteArray_inj.mp hbytes)

/-- Bytes start with one longest text. -/
theorem LongestText.unique {bytes : List UInt8} {text text' : List Char}
    (h : LongestText bytes text) (h' : LongestText bytes text') : text = text' := by
  have hle := h'.longest text h.isPrefix
  have hge := h.longest text' h'.isPrefix
  exact encode_inj ((List.prefix_of_prefix_length_le h.isPrefix h'.isPrefix hle).eq_of_length
    (Nat.le_antisymm hle hge))

/-- Of two maximal subparts at the start of the same bytes none is longer than the other. -/
theorem MaximalSubpart.length_le {bytes part part' : List UInt8} (h : MaximalSubpart bytes part)
    (h' : MaximalSubpart bytes part') : part.length ≤ part'.length := by
  rcases h.short with hone | ⟨c, hc⟩
  · rw [hone]
    exact List.length_pos_iff.mpr h'.ne_nil
  · exact h'.longest part c h.isPrefix hc

/-- Bytes start with one maximal subpart of a malformed sequence. -/
theorem MaximalSubpart.unique {bytes part part' : List UInt8} (h : MaximalSubpart bytes part)
    (h' : MaximalSubpart bytes part') : part = part' :=
  (List.prefix_of_prefix_length_le h.isPrefix h'.isPrefix (h.length_le h')).eq_of_length
    (Nat.le_antisymm (h.length_le h') (h'.length_le h))

/-- Behind the longest text of bytes that are all text nothing is left. -/
theorem LongestText.malformed_eq_nil {text text' : List Char} {l : List UInt8}
    (h : LongestText (encode text) text') (hbytes : encode text = encode text' ++ l) : l = [] := by
  have hle := h.longest text (List.prefix_refl _)
  rw [hbytes, List.length_append] at hle
  exact List.length_eq_zero_iff.mp (by omega)

/-- Bytes are made of chunks in one way only. The induction is on the first way. -/
theorem Chunked.unique {bytes : List UInt8} {chunks chunks' : List Chunk}
    (h : Chunked bytes chunks) (h' : Chunked bytes chunks') : chunks = chunks' := by
  induction h generalizing chunks' with
  | done hbytes =>
      cases h' with
      | done => rfl
      | last hne hbytes' =>
          have hnil := encode_inj (hbytes'.symm.trans hbytes : encode _ = encode [])
          exact absurd hnil hne
      | chunk hbytes' _ hpart _ =>
          rw [hbytes, List.nil_eq, List.append_eq_nil_iff, List.append_eq_nil_iff] at hbytes'
          exact absurd hbytes'.2.1 hpart.ne_nil
  | last hne hbytes =>
      subst hbytes
      cases h' with
      | done hbytes' => exact absurd (encode_inj (hbytes' : encode _ = encode [])) hne
      | last _ hbytes' => rw [encode_inj hbytes']
      | chunk hbytes' htext hpart _ =>
          have hnil := htext.malformed_eq_nil hbytes'
          exact absurd (List.append_eq_nil_iff.mp hnil).1 hpart.ne_nil
  | chunk hbytes htext hpart _ ih =>
      cases h' with
      | done hbytes' =>
          rw [hbytes', List.nil_eq, List.append_eq_nil_iff, List.append_eq_nil_iff] at hbytes
          exact absurd hbytes.2.1 hpart.ne_nil
      | last _ hbytes' =>
          subst hbytes'
          have hnil := htext.malformed_eq_nil hbytes
          exact absurd (List.append_eq_nil_iff.mp hnil).1 hpart.ne_nil
      | chunk hbytes' htext' hpart' hrest' =>
          -- The text is the same, so what is behind it is, and so is the malformed part of that.
          obtain rfl := htext.unique htext'
          have hbehind := List.append_cancel_left (hbytes.symm.trans hbytes')
          rw [← hbehind] at hpart'
          obtain rfl := hpart.unique hpart'
          obtain rfl := List.append_cancel_left hbehind
          rw [ih hrest']

/-! ### Where no character starts -/

/-- Take bytes that no character starts. Then no text in front of them and into them is longer than
the one that ends in front of them. -/
theorem length_encode_le {bytes : List UInt8} (h : ∀ c, ¬ utf8EncodeChar c <+: bytes)
    (text : List Char) {other : List Char} (hother : encode other <+: encode text ++ bytes) :
    (encode other).length ≤ (encode text).length := by
  induction text generalizing other with
  | nil =>
      cases other with
      | nil => exact Nat.le_refl _
      | cons c other =>
          rw [encode_cons] at hother
          exact absurd ((List.prefix_append _ _).trans hother) (h c)
  | cons d text ih =>
      cases other with
      | nil => exact Nat.zero_le _
      | cons c other =>
          obtain ⟨rest, hrest⟩ := hother
          rw [encode_cons, encode_cons, List.append_assoc, List.append_assoc] at hrest
          -- Encodings are prefix-free, so both texts start with one character.
          obtain ⟨rfl, hbehind⟩ := encodeChar_append_inj hrest
          have hle := ih ⟨rest, hbehind⟩
          rw [encode_cons, encode_cons, List.length_append, List.length_append]
          omega

/-- Text that no character follows is the longest text of its bytes. -/
theorem longestText_of_no_start {bytes : List UInt8} (h : ∀ c, ¬ utf8EncodeChar c <+: bytes)
    (text : List Char) : LongestText (encode text ++ bytes) text :=
  ⟨List.prefix_append _ _, fun _ => length_encode_le h text⟩

/-- `malformedLength`, on a list. -/
def subpartLength : List UInt8 → Nat
  | first :: second :: rest =>
      if maySecond first second then
        if 0xF0 ≤ first ∧ rest.head?.any isContinuation then 3 else 2
      else 1
  | _ => 1

/-- At least one byte is malformed where no character starts. -/
theorem subpartLength_pos (l : List UInt8) : 0 < subpartLength l := by
  unfold subpartLength
  split
  · split
    · split <;> decide
    · decide
  · decide

/-- Two bytes that may follow each other are malformed together. -/
theorem two_le_subpartLength {first second : UInt8} (h : maySecond first second = true)
    (rest : List UInt8) : 2 ≤ subpartLength (first :: second :: rest) := by
  rw [subpartLength, if_pos h]
  split <;> decide

/-- Two bytes with a lead byte for four, and a continuation behind them, are malformed together. -/
theorem subpartLength_of_third {first second third : UInt8} (h : maySecond first second = true)
    (hfirst : 0xF0 ≤ first) (hthird : isContinuation third = true) (rest : List UInt8) :
    subpartLength (first :: second :: third :: rest) = 3 := by
  rw [subpartLength, if_pos h, if_pos ⟨hfirst, hthird⟩]

/-- As many bytes as the table says could start a character, if they are more than one. -/
theorem take_subpartLength (l : List UInt8) (hne : l ≠ []) :
    (l.take (subpartLength l)).length = 1 ∨ ∃ c, l.take (subpartLength l) <+: utf8EncodeChar c := by
  match l, hne with
  | [first], _ => exact .inl rfl
  | first :: second :: rest, _ =>
      rw [subpartLength]
      split
      · next hsecond =>
          right
          split
          · next hthird =>
              cases rest with
              | nil => exact absurd hthird.2 (by decide)
              | cons third rest =>
                  obtain ⟨c, fourth, hc⟩ := exists_encode_of_third hsecond hthird.1 hthird.2
                  exact ⟨c, [fourth], hc.symm⟩
          · obtain ⟨c, third, more, hc⟩ := exists_encode_of_maySecond hsecond
            exact ⟨c, third :: more, hc.symm⟩
      · exact .inl rfl

/-- More bytes than the table says start no character, unless a whole one. -/
theorem length_le_subpartLength {l other : List UInt8} {c : Char}
    (h : ¬ utf8EncodeChar c <+: l) (hother : other <+: l) (hc : other <+: utf8EncodeChar c) :
    other.length ≤ subpartLength l := by
  obtain ⟨behind, rfl⟩ := hother
  obtain ⟨left, hleft⟩ := hc
  -- Something is left of the character, or it would be there as a whole.
  match left with
  | [] =>
      rw [List.append_nil] at hleft
      exact absurd (hleft ▸ List.prefix_append other behind) h
  | next :: left =>
      match other with
      | [] => exact Nat.zero_le _
      | [first] => exact subpartLength_pos _
      | [first, second] => exact two_le_subpartLength (maySecond_of_encode hleft.symm) behind
      | [first, second, third] =>
          obtain ⟨hfirst, hthird⟩ := third_of_encode hleft.symm
          have hsecond := maySecond_of_encode hleft.symm
          exact Nat.le_of_eq (subpartLength_of_third hsecond hfirst hthird behind).symm
      | first :: second :: third :: fourth :: other =>
          -- No character has more than four bytes.
          have hlength := congrArg List.length hleft
          have hfour := c.utf8Size_le_four
          rw [String.length_utf8EncodeChar] at hlength
          simp only [List.length_append, List.length_cons] at hlength
          omega

/-- Where no character starts, the bytes that the table says are the maximal subpart. -/
theorem maximalSubpart_take {l : List UInt8} (hne : l ≠ []) (h : ∀ c, ¬ utf8EncodeChar c <+: l) :
    MaximalSubpart l (l.take (subpartLength l)) := by
  have hpos := subpartLength_pos l
  have hlength := List.length_pos_iff.mpr hne
  refine ⟨?_, List.take_prefix _ _, take_subpartLength l hne, fun other c hother hc => ?_⟩
  · intro hnil
    rw [List.take_eq_nil_iff] at hnil
    rcases hnil with hzero | hnil
    · omega
    · exact hne hnil
  · rw [List.length_take]
    exact Nat.le_min.mpr ⟨length_le_subpartLength (h c) hother hc, hother.length_le⟩

/-! ### The pieces are the chunks -/

/-- A character that is decoded at `i` is what the bytes from `i` on start with. -/
theorem bytesFrom_of_decodeChar {bytes : ByteArray} {i : Nat} {c : Char}
    (h : bytes.utf8DecodeChar? i = some c) :
    bytesFrom bytes i = utf8EncodeChar c ++ bytesFrom bytes (i + c.utf8Size) := by
  have hbytes := congrArg (·.data.toList) (bytes_of_decodeChar h)
  simp only [Bytes.toList_extract, List.data_toByteArray, List.toList_toArray] at hbytes
  rw [hbytes, Bytes.take_append_bytesFrom]

/-- If none is decoded at `i`, the bytes from `i` on start with no character. -/
theorem no_start_of_decodeChar {bytes : ByteArray} {i : Nat}
    (h : bytes.utf8DecodeChar? i = none) (c : Char) : ¬ utf8EncodeChar c <+: bytesFrom bytes i := by
  rintro ⟨rest, hrest⟩
  have hdecode : (utf8EncodeChar c ++ rest).toByteArray.utf8DecodeChar? 0 = some c := by
    rw [List.toByteArray_append]
    exact ByteArray.utf8DecodeChar?_utf8EncodeChar_append
  have hbytes : (bytesFrom bytes i).toByteArray = bytes.extract i bytes.size := by
    apply ByteArray.ext
    rw [List.data_toByteArray, ← Bytes.toList_extract_size, Array.toArray_toList]
  rw [hrest, hbytes, ← ByteArray.utf8DecodeChar?_eq_utf8DecodeChar?_extract, h] at hdecode
  cases hdecode

/-- The length of a malformed piece is the one of the table, for the bytes from `i` on. -/
theorem malformedLength_eq (bytes : ByteArray) (i : Nat) :
    malformedLength bytes i = subpartLength (bytesFrom bytes i) := by
  have hfirst := Bytes.getElem?_bytesFrom bytes i 0
  have hsecond := Bytes.getElem?_bytesFrom bytes i 1
  have hthird := Bytes.getElem?_bytesFrom bytes i 2
  rw [Nat.add_zero] at hfirst
  rw [malformedLength, ← hfirst, ← hsecond, ← hthird]
  match bytesFrom bytes i with
  | [] => rfl
  | [first] => rfl
  | first :: second :: rest =>
      show (if maySecond first second then _ else 1) = _
      rw [subpartLength, List.head?_eq_getElem?]
      rfl

/-- The pieces from `i` on, behind text, make up chunks and are shown like them. The recursion is
that of `piecesFrom`. -/
theorem exists_chunked_piecesFrom (bytes : ByteArray) (i : Nat) (text : List Char) :
    ∃ chunks, Chunked (encode text ++ bytesFrom bytes i) chunks ∧
      chunks.flatMap Chunk.shown = text ++ (piecesFrom bytes i).map Piece.char := by
  -- Characters join the text in front of them, until a malformed piece ends the chunk.
  fun_induction piecesFrom bytes i generalizing text with
  | case1 i hi c hc ih =>
      obtain ⟨chunks, hchunked, hshown⟩ := ih (text ++ [c])
      refine ⟨chunks, ?_, ?_⟩
      · rw [encode_concat, List.append_assoc, ← bytesFrom_of_decodeChar hc] at hchunked
        exact hchunked
      · rw [hshown, List.append_assoc]
        rfl
  | case2 i hi hc stop ih =>
      obtain ⟨chunks, hchunked, hshown⟩ := ih []
      have hstart := no_start_of_decodeChar hc
      have hne : bytesFrom bytes i ≠ [] := by
        intro hnil
        have hbyte := Bytes.getElem?_bytesFrom bytes i 0
        rw [hnil, Nat.add_zero, getElem?_pos bytes i hi] at hbyte
        cases hbyte
      have hpart := maximalSubpart_take hne hstart
      have hsplit := Bytes.take_append_bytesFrom bytes i (malformedLength bytes i)
      rw [← malformedLength_eq] at hpart
      refine ⟨{ text, malformed := (bytesFrom bytes i).take (malformedLength bytes i) } :: chunks,
        ?_, ?_⟩
      · have hrest : Chunked (bytesFrom bytes stop) chunks := hchunked
        refine .chunk ?_ (longestText_of_no_start hstart text) ?_ hrest
        · rw [hsplit]
        · rw [hsplit]
          exact hpart
      · rw [List.flatMap_cons, hshown, Chunk.shown, if_neg hpart.ne_nil, List.append_assoc]
        rfl
  | case3 i hi =>
      rw [Bytes.bytesFrom_of_le (Nat.not_lt.mp hi), List.append_nil, List.map_nil, List.append_nil]
      cases text with
      | nil => exact ⟨[], .done rfl, rfl⟩
      | cons c text =>
          refine ⟨[{ text := c :: text, malformed := [] }], .last (List.cons_ne_nil c text) rfl, ?_⟩
          rw [List.flatMap_singleton, Chunk.shown, if_pos rfl, List.append_nil]

/-- A byte string is `Chunked` in one way: longest text, maximal subpart of a malformed sequence,
and so on. What `lossy` shows of it are these chunks, with one replacement character for each
malformed one. -/
theorem lossy_eq_chunks (bytes : ByteArray) :
    ∃ chunks, Chunked bytes.data.toList chunks ∧
      (∀ other, Chunked bytes.data.toList other → other = chunks) ∧
      lossy bytes = String.ofList (chunks.flatMap Chunk.shown) := by
  obtain ⟨chunks, hchunked, hshown⟩ := exists_chunked_piecesFrom bytes 0 []
  refine ⟨chunks, hchunked, fun other hother => hother.unique hchunked, ?_⟩
  rw [hshown, lossy, pieces_eq_piecesFrom]
  rfl

/-! ### No new NUL -/

/-- A piece without a NUL is shown as a character whose encoding has none. -/
theorem zero_not_mem_encodeChar {p : Piece} (h : 0 ∉ p.bytes.data.toList) :
    0 ∉ utf8EncodeChar p.char := by
  cases p with
  | scalar c =>
      rw [Piece.bytes, List.data_toByteArray, List.toList_toArray] at h
      exact h
  | malformed bytes =>
      show 0 ∉ utf8EncodeChar '\uFFFD'
      decide

/-- Pieces without a NUL are shown as characters whose encodings have none. -/
theorem zero_not_mem_encode {ps : List Piece} (h : 0 ∉ (joined ps).data.toList) :
    0 ∉ encode (ps.map Piece.char) := by
  induction ps with
  | nil => exact List.not_mem_nil
  | cons p ps ih =>
      rw [joined, ByteArray.data_append, Array.toList_append, List.mem_append, not_or] at h
      rw [List.map_cons, encode_cons, List.mem_append, not_or]
      exact ⟨zero_not_mem_encodeChar h.1, ih h.2⟩

/-- Bytes without a NUL are shown as text without a NUL, so that it can be written as a text
again. -/
theorem zero_not_mem_lossy {bytes : ByteArray} (h : 0 ∉ bytes.data.toList) :
    0 ∉ (lossy bytes).toUTF8.data.toList := by
  rw [← joined_pieces bytes] at h
  have hencoded := zero_not_mem_encode h
  have hbytes : (lossy bytes).toUTF8 = (encode ((pieces bytes).map Piece.char)).toByteArray :=
    String.toByteArray_ofList
  rw [hbytes, List.data_toByteArray, List.toList_toArray]
  exact hencoded

end EarlyBoot.Text

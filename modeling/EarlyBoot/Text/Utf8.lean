/-!
# `EarlyBoot.Text.Utf8`: text in bytes that may be malformed

A byte string is cut into pieces from left to right: a well-formed character
where one starts, otherwise the longest run of bytes that could have started
one, which is at least one byte long. Every malformed piece is shown as one
replacement character, as the Unicode standard recommends.

Main statements:

* `joined_pieces` : the pieces of a byte string are all of its bytes, in order;
* `lossy_toUTF8` : the encoding of a text is shown as that text.
-/

set_option autoImplicit false

namespace EarlyBoot.Text

/-- A stretch of a byte string: a character, or bytes that are none. -/
inductive Piece where
  | scalar (c : Char)
  | malformed (bytes : ByteArray)

/-- The character that a piece is shown as. -/
def Piece.char : Piece → Char
  | .scalar c    => c
  | .malformed _ => '\uFFFD'

/-- The bytes that a piece covers. -/
def Piece.bytes : Piece → ByteArray
  | .scalar c        => (String.utf8EncodeChar c).toByteArray
  | .malformed bytes => bytes

/-- Whether `b` continues a character. -/
def isContinuation (b : UInt8) : Bool :=
  0x80 ≤ b && b ≤ 0xBF

/-- Whether a character of three or four bytes may start with `first` and `second`. -/
def maySecond (first second : UInt8) : Bool :=
  if first = 0xE0 then 0xA0 ≤ second && second ≤ 0xBF
  else if first = 0xED then 0x80 ≤ second && second ≤ 0x9F
  else if first = 0xF0 then 0x90 ≤ second && second ≤ 0xBF
  else if first = 0xF4 then 0x80 ≤ second && second ≤ 0x8F
  else 0xE1 ≤ first && first ≤ 0xF3 && isContinuation second

/-- Length of the longest run from `i` on that could start a character, where no
character starts: one byte, unless the next ones go on well. -/
def malformedLength (bytes : ByteArray) (i : Nat) : Nat :=
  match bytes[i]?, bytes[i + 1]? with
  | some first, some second =>
      if maySecond first second then
        if 0xF0 ≤ first ∧ (bytes[i + 2]?.any isContinuation) then 3 else 2
      else 1
  | _, _ => 1

/-- A malformed piece takes at least one byte, so `piecesFrom` always moves on. -/
theorem malformedLength_pos (bytes : ByteArray) (i : Nat) : 0 < malformedLength bytes i := by
  unfold malformedLength
  split
  · split
    · split <;> decide
    · decide
  · decide

/-- The pieces of `bytes` from `i` on. -/
def piecesFrom (bytes : ByteArray) (i : Nat) : List Piece :=
  if i < bytes.size then
    match bytes.utf8DecodeChar? i with
    | some c => .scalar c :: piecesFrom bytes (i + c.utf8Size)
    | none   =>
        let stop := i + malformedLength bytes i
        .malformed (bytes.extract i stop) :: piecesFrom bytes stop
  else
    []
termination_by bytes.size - i
decreasing_by
  · have := c.utf8Size_pos
    omega
  · have := malformedLength_pos bytes i
    omega

/-- The pieces of `bytes` from `i` on, behind those of `acc`; long texts need no stack. -/
def piecesInto (bytes : ByteArray) (i : Nat) (acc : Array Piece) : Array Piece :=
  if i < bytes.size then
    match bytes.utf8DecodeChar? i with
    | some c => piecesInto bytes (i + c.utf8Size) (acc.push (.scalar c))
    | none   =>
        let stop := i + malformedLength bytes i
        piecesInto bytes stop (acc.push (.malformed (bytes.extract i stop)))
  else
    acc
termination_by bytes.size - i
decreasing_by
  · have := c.utf8Size_pos
    omega
  · have := malformedLength_pos bytes i
    omega

/-- The pieces of a byte string. -/
def pieces (bytes : ByteArray) : List Piece :=
  (piecesInto bytes 0 #[]).toList

/-- The bytes of pieces, one after the other. -/
def joined : List Piece → ByteArray
  | []      => ByteArray.empty
  | p :: ps => p.bytes ++ joined ps

/-- The text of a byte string, with one replacement character for every
malformed piece. -/
def lossy (bytes : ByteArray) : String :=
  String.ofList ((pieces bytes).map Piece.char)

/-! ### The pieces one by one -/

/-- Behind the last byte there are no pieces. -/
theorem piecesFrom_of_le {bytes : ByteArray} {i : Nat} (h : bytes.size ≤ i) :
    piecesFrom bytes i = [] := by
  rw [piecesFrom, if_neg (Nat.not_lt.mpr h)]

/-- Take an index where `utf8DecodeChar?` finds a character. Then this character is the first piece
from there on, and the next piece starts behind its encoding. -/
theorem piecesFrom_of_some {bytes : ByteArray} {i : Nat} {c : Char}
    (h : bytes.utf8DecodeChar? i = some c) :
    piecesFrom bytes i = .scalar c :: piecesFrom bytes (i + c.utf8Size) := by
  have hle := ByteArray.le_size_of_utf8DecodeChar?_eq_some h
  have hc := c.utf8Size_pos
  rw [piecesFrom, if_pos (by omega)]
  simp [h]

/-- Take an index inside the bytes where no character starts. Then the first piece from there on is
malformed, and takes `malformedLength` bytes. -/
theorem piecesFrom_of_none {bytes : ByteArray} {i : Nat} (hi : i < bytes.size)
    (h : bytes.utf8DecodeChar? i = none) :
    piecesFrom bytes i =
      .malformed (bytes.extract i (i + malformedLength bytes i)) ::
        piecesFrom bytes (i + malformedLength bytes i) := by
  rw [piecesFrom, if_pos hi]
  simp [h]

/-- Piling pieces up behind `acc` leaves those of `acc` in front: `piecesInto` is `piecesFrom` with
an accumulator. -/
theorem toList_piecesInto (bytes : ByteArray) (i : Nat) (acc : Array Piece) :
    (piecesInto bytes i acc).toList = acc.toList ++ piecesFrom bytes i := by
  fun_induction piecesInto bytes i acc with
  | case1 i acc hi c hc ih => simp [ih, piecesFrom_of_some hc]
  | case2 i acc hi hc stop ih => simp [ih, piecesFrom_of_none hi hc, stop]
  | case3 i acc hi => simp [piecesFrom_of_le (Nat.not_lt.mp hi)]

/-- The pieces of a byte string are those from its start on. -/
theorem pieces_eq_piecesFrom (bytes : ByteArray) : pieces bytes = piecesFrom bytes 0 := by
  simp [pieces, toList_piecesInto]

/-! ### Nothing is lost -/

/-- A malformed piece ends inside the byte string. -/
theorem malformedLength_le {bytes : ByteArray} {i : Nat} (hi : i < bytes.size) :
    i + malformedLength bytes i ≤ bytes.size := by
  unfold malformedLength
  split
  · -- Every byte that is counted was read, so it lies within the bytes.
    rename_i second _ hsecond
    have h₂ : i + 1 < bytes.size := by
      rw [Nat.lt_iff_add_one_le]
      exact Nat.le_of_not_lt fun hlt => by simp [getElem?_neg bytes (i + 1) (by omega)] at hsecond
    split
    · split
      · rename_i hthird
        obtain ⟨-, hthird⟩ := hthird
        have h₃ : i + 2 < bytes.size := by
          refine Nat.lt_of_not_le fun hle => ?_
          simp [getElem?_neg bytes (i + 2) (by omega)] at hthird
        omega
      · omega
    · omega
  · omega

/-- A character that `utf8DecodeChar?` finds at `i` covers exactly the bytes of its own encoding. -/
theorem bytes_of_decodeChar {bytes : ByteArray} {i : Nat} {c : Char}
    (h : bytes.utf8DecodeChar? i = some c) :
    (String.utf8EncodeChar c).toByteArray = bytes.extract i (i + c.utf8Size) := by
  have hle := ByteArray.le_size_of_utf8DecodeChar?_eq_some h
  rw [ByteArray.utf8DecodeChar?_eq_utf8DecodeChar?_extract] at h
  rw [String.toByteArray_utf8EncodeChar_of_utf8DecodeChar?_eq_some h, ByteArray.extract_extract,
    Nat.add_zero, Nat.min_eq_left hle]

/-- The pieces from `i` on are all bytes from `i` on, in order; none is dropped or read twice. -/
theorem joined_piecesFrom (bytes : ByteArray) (i : Nat) :
    joined (piecesFrom bytes i) = bytes.extract i bytes.size := by
  fun_induction piecesFrom bytes i with
  | case1 i hi c h ih =>
      have hle := ByteArray.le_size_of_utf8DecodeChar?_eq_some h
      rw [joined, ih, Piece.bytes, bytes_of_decodeChar h, ByteArray.extract_append_extract,
        Nat.min_eq_left (by omega), Nat.max_eq_right hle]
  | case2 i hi h stop ih =>
      have hle : stop ≤ bytes.size := malformedLength_le hi
      have hstop : i < stop := Nat.lt_add_of_pos_right (malformedLength_pos bytes i)
      rw [joined, ih, Piece.bytes, ByteArray.extract_append_extract, Nat.min_eq_left (by omega),
        Nat.max_eq_right hle]
  | case3 i hi =>
      rw [joined, eq_comm, ByteArray.extract_eq_empty_iff]
      omega

/-- The pieces of a byte string, joined, are that byte string. -/
theorem joined_pieces (bytes : ByteArray) : joined (pieces bytes) = bytes := by
  rw [pieces_eq_piecesFrom, joined_piecesFrom]
  simp

/-! ### Well-formed text -/

/-- Put the encoding of some characters behind any bytes. Then `piecesFrom`, started behind those
bytes, cuts it into just these characters. -/
theorem piecesFrom_utf8Encode (front : ByteArray) (cs : List Char) :
    piecesFrom (front ++ cs.utf8Encode) front.size = cs.map .scalar := by
  induction cs generalizing front with
  | nil => exact piecesFrom_of_le (by simp)
  | cons c cs ih =>
      have hc : (front ++ (c :: cs).utf8Encode).utf8DecodeChar? front.size = some c := by
        -- What follows the front is the encoding of the whole text, and `c` decodes from it.
        have hback : (front ++ (c :: cs).utf8Encode).extract front.size
            (front ++ (c :: cs).utf8Encode).size = (c :: cs).utf8Encode := by
          rw [ByteArray.size_append]
          exact ByteArray.extract_append_eq_right rfl rfl
        rw [ByteArray.utf8DecodeChar?_eq_utf8DecodeChar?_extract, hback,
          List.utf8DecodeChar?_utf8Encode_cons]
      have hsize : front.size + c.utf8Size = (front ++ [c].utf8Encode).size := by
        simp [List.utf8Encode_singleton]
      rw [piecesFrom_of_some hc, hsize, List.utf8Encode_cons, ← ByteArray.append_assoc, ih]
      rfl

/-- The encoding of characters is cut into just these characters, with no malformed piece. -/
theorem pieces_utf8Encode (cs : List Char) : pieces cs.utf8Encode = cs.map .scalar := by
  have := piecesFrom_utf8Encode ByteArray.empty cs
  simpa [pieces_eq_piecesFrom] using this

/-- The encoding of a text is shown as that text: `lossy` replaces nothing in well-formed bytes. -/
theorem lossy_toUTF8 (s : String) : lossy s.toUTF8 = s := by
  have hs : s.toUTF8 = s.toList.utf8Encode := by simp
  have hchar : Piece.char ∘ Piece.scalar = id := rfl
  rw [lossy, hs, pieces_utf8Encode, List.map_map, hchar]
  simp

end EarlyBoot.Text

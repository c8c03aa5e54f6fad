import EarlyBoot.Proofs.Screen.Pages
import EarlyBoot.Proofs.Screen.Painting

/-!
# `EarlyBoot.Proofs.Screen.Scrolled`: every byte after a scroll

A scroll moves whole rows, with the bytes between them, and then blanks the pixels of
the last text line and not what is between its rows. `Scrolled` says what this makes of
the memory, row by row: which byte each byte above the last text line comes from, and
which bytes stay. No byte is left open (`Scrolled.unique`).

Bytes between rows are moved by a scroll and by nothing else. Everything but the scroll
paints, and what is painted are pixels, which do not reach there.

Main statements:

* `Canvas.scrolled_scroll`, `Scrolled.unique` : a scroll, byte by byte;
* `Console.keepsHidden_follow` : without a scroll the bytes between rows stay;
* `Console.newline_scrolled` : both for a console.
-/

set_option autoImplicit false

namespace EarlyBoot.Screen

namespace Geometry

/-- Byte `i` of the memory is between the end of a row and the start of the next. -/
def Padding (g : Geometry) (i : Nat) : Prop :=
  ∃ y j, y < g.height ∧ g.rowBytes ≤ j ∧ j < g.pitch ∧ i = y * g.pitch + j

/-- A pixel that holds a byte of a row is in that row. -/
theorem row_eq_of_byte (g : Geometry) {x y y' j : Nat} (hx : x < g.width) (hj : j < g.pitch)
    (hle : g.offset x y' ≤ y * g.pitch + j)
    (hlt : y * g.pitch + j < g.offset x y' + g.depth.bytes) : y' = y := by
  rcases Nat.lt_trichotomy y' y with habove | hsame | hbelow
  · have hend := g.offset_add_le_row hx habove
    omega
  · exact hsame
  · have hstart : y' * g.pitch ≤ g.offset x y' := Nat.le_add_right _ _
    have hrows := mul_add_le_mul_of_lt hbelow g.pitch
    omega

/-- A byte between rows belongs to no pixel. -/
theorem Padding.not_visible {g : Geometry} {i : Nat} (h : g.Padding i) : ¬ g.Visible i := by
  obtain ⟨y, j, -, hrow, hj, rfl⟩ := h
  rintro ⟨x, y', hx, -, hle, hlt⟩
  obtain rfl := g.row_eq_of_byte hx hj hle hlt
  have hcolumn := g.column_add_le hx
  simp only [offset] at hlt
  omega

end Geometry

/-- What a scroll makes of a memory: all text lines but the first have moved up by one, with
the bytes between rows, and the pixels of the last one are blank. -/
structure Scrolled (g : Geometry) (paper : Color) (before after : ByteArray) : Prop where
  /-- All bytes of a row above the last text line are those of the row 16 rows below. -/
  moved : ∀ y < (g.rows - 1) * glyphHeight, ∀ j < g.pitch,
    after[y * g.pitch + j]? = before[(y + glyphHeight) * g.pitch + j]?
  /-- The pixels of the last text line are the colour of the background, encoded. -/
  blank : ∀ y, (g.rows - 1) * glyphHeight ≤ y → y < g.rows * glyphHeight →
    after.extract (y * g.pitch) (y * g.pitch + g.rowBytes) =
      Bytes.repeated (g.encoded paper) g.width
  /-- Between the rows of the last text line nothing changes. -/
  padding : ∀ y, (g.rows - 1) * glyphHeight ≤ y → y < g.rows * glyphHeight →
    ∀ j, g.rowBytes ≤ j → j < g.pitch → after[y * g.pitch + j]? = before[y * g.pitch + j]?
  /-- Nothing changes in the rows below the text lines and behind the screen. -/
  below : ∀ i, g.rows * glyphHeight * g.pitch ≤ i → after[i]? = before[i]?
  size : after.size = before.size

/-- The memory after a scroll is told byte by byte: `Scrolled` holds of one memory only. -/
theorem Scrolled.unique {g : Geometry} {paper : Color} {before after after' : ByteArray}
    (h : Scrolled g paper before after) (h' : Scrolled g paper before after') : after = after' := by
  apply Bytes.ext_getElem?
  intro i
  by_cases hi : g.rows * glyphHeight * g.pitch ≤ i
  · rw [h.below i hi, h'.below i hi]
  -- A byte of the text lines is byte `j` of row `y`.
  have hsplit : i = i / g.pitch * g.pitch + i % g.pitch := (Nat.div_add_mod' i g.pitch).symm
  have hy : i / g.pitch < g.rows * glyphHeight := (Nat.div_lt_iff_lt_mul g.pitch_pos).mpr (by omega)
  have hj := Nat.mod_lt i g.pitch_pos
  generalize i / g.pitch = y at hsplit hy
  generalize i % g.pitch = j at hsplit hj
  subst hsplit
  by_cases hmoved : y < (g.rows - 1) * glyphHeight
  · rw [h.moved y hmoved j hj, h'.moved y hmoved j hj]
  have hlast := Nat.not_lt.mp hmoved
  by_cases hrow : g.rowBytes ≤ j
  · rw [h.padding y hlast hy j hrow hj, h'.padding y hlast hy j hrow hj]
  · have hbyte (bytes : ByteArray) :
        bytes[y * g.pitch + j]? = (bytes.extract (y * g.pitch) (y * g.pitch + g.rowBytes))[j]? := by
      rw [Bytes.getElem?_extract, if_pos (by omega)]
    rw [hbyte after, hbyte after', h.blank y hlast hy, h'.blank y hlast hy]

namespace Canvas

variable {g : Geometry}

/-- The bytes of a row stay where none of its pixels is painted. -/
theorem Paints.getElem?_row {area : Nat → Nat → Prop} {color : Nat → Nat → Color}
    {before after : Canvas g} (h : Paints area color before after) {y j : Nat}
    (hj : j < g.pitch) (harea : ∀ x, ¬ area x y) :
    after.pixels[y * g.pitch + j]? = before.pixels[y * g.pitch + j]? := by
  by_cases hi : g.Visible (y * g.pitch + j)
  · obtain ⟨x, y', hx, hy, hle, hlt⟩ := hi
    obtain rfl := g.row_eq_of_byte hx hj hle hlt
    rw [← getElem?_pixelAt after hle hlt, ← getElem?_pixelAt before hle hlt,
      h.kept x y' hx hy (harea x)]
  · exact h.padding _ hi

/-- A row whose pixels all have one colour is a plain row. -/
theorem extract_row_eq_plainRow (canvas : Canvas g) {y : Nat} (color : Color)
    (h : ∀ x < g.width, canvas.pixelAt x y = g.pixel color) :
    canvas.pixels.extract (y * g.pitch) (y * g.pitch + g.rowBytes) = plainRow g color := by
  have hplain : plainRow g color = (plainRow g color).extract 0 (0 + g.rowBytes) := by
    rw [Nat.zero_add, ← size_plainRow g color, ByteArray.extract_zero_size]
  rw [hplain]
  apply Bytes.extract_congr
  intro j hj
  -- Byte `j` is one of pixel `x`, on the canvas and in the plain row.
  have hpos := g.depth.bytes_pos
  have hx : j / g.depth.bytes < g.width := (Nat.div_lt_iff_lt_mul hpos).mpr hj
  have hdiv := Nat.div_add_mod' j g.depth.bytes
  have hmod := Nat.mod_lt j hpos
  generalize j / g.depth.bytes = x at hx hdiv
  have hunit : (plainRow g color).extract (x * (g.pixel color).size)
      (x * (g.pixel color).size + (g.pixel color).size) = g.pixel color :=
    Bytes.extract_repeated hx
  have hbyte := congrArg (·[j % g.depth.bytes]?) (hunit.trans (h x hx).symm)
  simp only [pixelAt, g.size_pixel] at hbyte
  rw [Bytes.getElem?_extract, Bytes.getElem?_extract, if_pos hmod, if_pos hmod, hdiv,
    Geometry.offset, Nat.add_assoc, hdiv] at hbyte
  rw [Nat.zero_add]
  exact hbyte.symm

/-- What `scroll` leaves in the memory is `Scrolled`: moved, blanked and kept byte by byte. -/
theorem scrolled_scroll (canvas : Canvas g) (paper : Color) (h : 0 < g.rows) :
    Scrolled g paper canvas.pixels (canvas.scroll paper h).pixels := by
  have hfill := paints_fillRows (canvas.shiftLines h) ((g.rows - 1) * glyphHeight)
    (g.rows * glyphHeight) paper
  have hbytes := g.mul_lineBytes (g.rows - 1)
  have hlines := g.rows_mul_eq h glyphHeight
  have hheight := g.rows_mul_le
  -- From the last text line on nothing is moved.
  have hstay : ∀ i, (g.rows - 1) * glyphHeight * g.pitch ≤ i →
      (canvas.shiftLines h).pixels[i]? = canvas.pixels[i]? := by
    intro i hi
    rw [getElem?_shiftLines, if_neg (by omega)]
  constructor
  · intro y hy j hj
    have hrow := mul_add_le_mul_of_lt hy g.pitch
    rw [scroll, hfill.getElem?_row hj (by omega), getElem?_shiftLines, if_pos (by omega),
      ← Nat.add_assoc, g.lineBytes_add]
  · intro y hlast hy
    rw [← g.pixel_eq_encoded]
    exact extract_row_eq_plainRow _ paper fun x hx =>
      hfill.painted x y hx (by omega) ⟨hlast, hy⟩
  · intro y hlast hy j hrow hj
    have hpadding : g.Padding (y * g.pitch + j) := ⟨y, j, by omega, hrow, hj, rfl⟩
    have hrows : (g.rows - 1) * glyphHeight * g.pitch ≤ y * g.pitch :=
      Nat.mul_le_mul_right _ hlast
    rw [scroll, hfill.padding _ hpadding.not_visible, hstay _ (by omega)]
  · intro i hi
    -- Byte `i` is in a row that is not painted, of the screen or behind it.
    have hy : g.rows * glyphHeight ≤ i / g.pitch := (Nat.le_div_iff_mul_le g.pitch_pos).mpr hi
    have hrows : (g.rows - 1) * glyphHeight * g.pitch ≤ g.rows * glyphHeight * g.pitch :=
      Nat.mul_le_mul_right _ (by omega)
    have hkept := hfill.getElem?_row (y := i / g.pitch) (Nat.mod_lt i g.pitch_pos) (by omega)
    rw [Nat.div_add_mod'] at hkept
    rw [scroll, hkept, hstay i (by omega)]
  · exact size_scroll canvas paper h

end Canvas

namespace Console

/-! ### Scrolls of a console -/

/-- Whether a new line scrolls, which it does on the last text line. -/
def atBottom (c : Console) : Bool :=
  0 < c.geometry.rows && c.geometry.rows ≤ c.line + 1

/-- Whether a character starts a new line: as a line feed, or because no tab stop or no
cell is left in the line. -/
def startsLine (c : Console) (ch : Char) : Bool :=
  match ch with
  | '\n' => true
  | '\r' => false
  | '\t' => c.geometry.columns ≤ (c.column / tabWidth + 1) * tabWidth
  | _ => c.geometry.columns ≤ c.column

/-- Whether a character scrolls. -/
def scrollsAt (c : Console) (ch : Char) : Bool :=
  0 < c.geometry.columns && c.startsLine ch && c.atBottom

/-- Whether one of several steps scrolls. -/
def scrollsAlong {α : Type} (step : Console → α → Console) (scrolls : Console → α → Bool)
    (c : Console) : List α → Bool
  | []      => false
  | a :: as => scrolls c a || (step c a).scrollsAlong step scrolls as

/-- Whether a text scrolls. -/
def scrollsIn (c : Console) (text : String) : Bool :=
  c.scrollsAlong putChar scrollsAt text.toList

/-- Whether an instruction scrolls. -/
def scrolls (c : Console) : Instruction → Bool
  | .fill _ | .clear | .putPixel _ _ _ | .setColors _ _ => false
  | .putChar ch => c.scrollsAt ch
  | .write text => c.scrollsIn text
  | .newline => c.atBottom
  | .status status text => (c.setColors status.color c.paper).scrollsIn (status.label ++ text)

/-- A character that is drawn starts a new line exactly if its line is full. -/
theorem startsLine_of_print {c : Console} {ch : Char} (hfeed : ch ≠ '\n') (hreturn : ch ≠ '\r')
    (htab : ch ≠ '\t') : c.startsLine ch = decide (c.geometry.columns ≤ c.column) := by
  unfold startsLine
  split
  · exact absurd rfl hfeed
  · exact absurd rfl hreturn
  · exact absurd rfl htab
  · rfl

/-- Above the last text line, and on a screen without one, a new line leaves the pixels alone. -/
theorem pixels_newline (c : Console) (h : c.atBottom = false) : c.newline.pixels = c.pixels := by
  simp only [atBottom, Bool.and_eq_false_iff, decide_eq_false_iff_not] at h
  rcases h with hrows | hline
  · rw [newline_of_no_row (by omega)]
  · rw [newline_of_lt (by omega)]
    rfl

/-! ### Bytes that are no part of a pixel -/

/-- The screen has the same shape, and the bytes of the memory that are no part of a pixel
have not changed. -/
structure KeepsHidden (before after : Console) : Prop where
  geometry : after.geometry = before.geometry
  hidden : ∀ i, ¬ before.geometry.Visible i → after.pixels[i]? = before.pixels[i]?

namespace KeepsHidden

/-- What changes nothing keeps the hidden bytes. -/
theorem refl (c : Console) : KeepsHidden c c := ⟨rfl, fun _ _ => rfl⟩

/-- Two drawings in a row keep the hidden bytes if each of them does. -/
theorem trans {c c' c'' : Console} (h : KeepsHidden c c') (h' : KeepsHidden c' c'') :
    KeepsHidden c c'' where
  geometry := h'.geometry.trans h.geometry
  hidden i hi := by rw [h'.hidden i (by rwa [h.geometry]), h.hidden i hi]

/-- A console with a painted canvas keeps the hidden bytes, since only pixels are painted. -/
theorem of_paints {c : Console} {canvas : Canvas c.geometry} {area : Nat → Nat → Prop}
    {color : Nat → Nat → Color} (h : Canvas.Paints area color c.canvas canvas) (column line : Nat)
    (ink paper : Color) : KeepsHidden c { c with canvas, column, line, ink, paper } :=
  ⟨rfl, h.padding⟩

/-- Take steps that each keep the hidden bytes unless they scroll. Then a fold in which none scrolls
keeps them. The induction is on the list. -/
theorem foldl {α : Type} {step : Console → α → Console} {scrolls : Console → α → Bool}
    (h : ∀ c a, scrolls c a = false → KeepsHidden c (step c a)) {c : Console} {as : List α}
    (hnone : c.scrollsAlong step scrolls as = false) : KeepsHidden c (as.foldl step c) := by
  induction as generalizing c with
  | nil => exact refl c
  | cons a as ih =>
      rw [scrollsAlong, Bool.or_eq_false_iff] at hnone
      exact (h c a hnone.1).trans (ih hnone.2)

end KeepsHidden

/-- A new line that does not scroll keeps the hidden bytes. -/
theorem keepsHidden_newline {c : Console} (h : c.atBottom = false) : KeepsHidden c c.newline :=
  ⟨geometry_newline c, fun i _ => by rw [pixels_newline c h]⟩

/-- A character that is drawn at the cursor keeps the hidden bytes. -/
theorem keepsHidden_printHere (c : Console) (ch : Char) : KeepsHidden c (c.printHere ch) :=
  .of_paints (c.canvas.paints_drawGlyph ch c.column c.line c.ink c.paper) _ _ _ _

/-- A character that does not scroll keeps the hidden bytes, since it paints its cell at most. -/
theorem keepsHidden_putChar {c : Console} {ch : Char} (h : c.scrollsAt ch = false) :
    KeepsHidden c (c.putChar ch) := by
  unfold putChar
  split
  · exact .refl c
  · next hcell =>
      have hcolumns : decide (0 < c.geometry.columns) = true := decide_eq_true (by omega)
      rw [scrollsAt, hcolumns, Bool.true_and, Bool.and_eq_false_iff] at h
      -- If the character starts a new line, the line is not the last one.
      have hbottom (hstarts : c.startsLine ch = true) : c.atBottom = false :=
        h.resolve_left (by rw [hstarts]; exact Bool.noConfusion)
      split
      · exact keepsHidden_newline (hbottom rfl)
      · exact .of_paints (Canvas.Paints.refl (fun _ _ => c.ink) c.canvas) _ _ _ _
      · unfold tab
        dsimp only
        split
        · next hstop => exact keepsHidden_newline (hbottom (decide_eq_true hstop))
        · exact .of_paints (Canvas.Paints.refl (fun _ _ => c.ink) c.canvas) _ _ _ _
      · next hfeed hreturn htab =>
          unfold print
          split
          · next hfull =>
              have hstarts : c.startsLine ch = true := by
                rw [startsLine_of_print hfeed hreturn htab]
                exact decide_eq_true hfull
              exact (keepsHidden_newline (hbottom hstarts)).trans (keepsHidden_printHere _ _)
          · exact keepsHidden_printHere c _

/-- An instruction that does not scroll keeps the hidden bytes, since it paints pixels. -/
theorem keepsHidden_follow {c : Console} {instruction : Instruction}
    (h : c.scrolls instruction = false) : KeepsHidden c (c.follow instruction) := by
  cases instruction with
  | fill color => exact .of_paints (c.canvas.paints_fill color) _ _ _ _
  | clear => exact .of_paints (c.canvas.paints_fill c.paper) _ _ _ _
  | putPixel x y color => exact .of_paints (c.canvas.paints_putPixel x y color) _ _ _ _
  | putChar ch => exact keepsHidden_putChar h
  | write text => exact .foldl (fun _ _ => keepsHidden_putChar) h
  | newline => exact keepsHidden_newline h
  | setColors ink paper => exact ⟨rfl, fun _ _ => rfl⟩
  | status status text =>
      have htext : KeepsHidden (c.setColors status.color c.paper) _ :=
        .foldl (fun _ _ => keepsHidden_putChar) h
      exact ⟨htext.geometry, htext.hidden⟩

/-- Take a console whose cursor is on the last text line. Then `newline` leaves a memory that is
`Scrolled`, which names each of its bytes, and a cursor at the start of the same line; the colours
stay. Every other instruction that does not scroll changes no byte between rows. -/
theorem newline_scrolled (c : Console) :
    (c.line + 1 = c.geometry.rows →
      Scrolled c.geometry c.paper c.pixels c.newline.pixels ∧
      c.newline.cursor = (0, c.line) ∧ c.newline.colors = c.colors) ∧
    ∀ instruction, c.scrolls instruction = false →
      ∀ i, c.geometry.Padding i → (c.follow instruction).pixels[i]? = c.pixels[i]? := by
  constructor
  · intro hlast
    have hrows : 0 < c.geometry.rows := by omega
    rw [newline_of_le hrows (by omega)]
    exact ⟨c.canvas.scrolled_scroll c.paper hrows, rfl, rfl⟩
  · intro instruction h i hi
    exact (keepsHidden_follow h).hidden i hi.not_visible

/-- Take a screen of two text lines, with rows below them, a byte between two rows and five bytes
behind the screen, and a text on green that ends on the second line. A new line there blanks row
16 in green, which is two bytes of this layout; one more character finds room and does not
scroll. -/
theorem newline_scrolled_second_line :
    let g : Geometry := ⟨16, 40, 33, .bits16, .bgrx, by decide, by decide, by decide, by decide⟩
    ∃ c, onPixels g (Bytes.filled 1325 0xAA) = .ok c ∧
      let d := (c.setColors .white .green).write "ab\nc"
      d.line + 1 = d.geometry.rows ∧
      Scrolled d.geometry d.paper d.pixels d.newline.pixels ∧
      d.newline.pixels.extract 528 560 = Bytes.repeated ⟨#[0x00, 0xFF]⟩ 16 ∧
      d.newline.cursor = (0, 1) ∧
      d.scrolls (.write "d") = false ∧ d.geometry.Padding 32 ∧
      (d.follow (.write "d")).pixels[32]? = d.pixels[32]? := by
  intro g
  refine ⟨_, dif_pos (by decide +kernel), ?_⟩
  intro d
  have hlast : d.line + 1 = d.geometry.rows := by decide +kernel
  have hroom : d.scrolls (.write "d") = false := by decide +kernel
  have hpadding : d.geometry.Padding 32 := ⟨0, 32, by decide +kernel⟩
  obtain ⟨hscroll, hcursor, -⟩ := (newline_scrolled d).1 hlast
  have hline : d.line = 1 := by decide +kernel
  have hgreen : d.geometry.encoded d.paper = ⟨#[0x00, 0xFF]⟩ := by decide +kernel
  -- The new line starts in row 16, and its 16 rows are visible.
  have hblank := hscroll.blank 16 (by decide +kernel) (by decide +kernel)
  have hshape : d.geometry.pitch = 33 ∧ d.geometry.rowBytes = 32 ∧ d.geometry.width = 16 := by
    decide +kernel
  rw [hgreen, hshape.1, hshape.2.1, hshape.2.2] at hblank
  rw [hline] at hcursor
  exact ⟨hlast, hscroll, hblank, hcursor, hroom, hpadding,
    (newline_scrolled d).2 _ hroom 32 hpadding⟩

end Console

end EarlyBoot.Screen

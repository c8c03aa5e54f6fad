import EarlyBoot.Proofs.Screen.Pages
import EarlyBoot.Proofs.Screen.Painting
import EarlyBoot.Screen.Checked

/-!
# `EarlyBoot.Proofs.Screen.Bounds`: no instruction leaves the screen

`EarlyBoot.Screen.Checked` draws in words and traps at the first index that is too
large. Here no instruction does that, whatever its arguments: the drawing in words
ends where the console does. What carries this through a run is the place of the
cursor. `Bounded` says that it is in a column and on a text line of the screen, or
just behind the last column; then a cell at the cursor is on the screen, so all
numbers on the way to its pixels are at most the size of the screen, which is a word.

`Confined` is what an instruction may change: bytes of the screen, and neither their
number nor those behind the screen. `Safe` puts the three together for one drawing,
so that there is one lemma for each step of a console, and a run is a chain of them.

Main statements:

* `Checked.fillRows_eq_ok`, `Checked.drawGlyph_eq_ok`, `Checked.scroll_eq_ok` : no
  loop over pixels or rows traps;
* `Safe.bind` : one safe drawing after another;
* `safe_follow`, `safe_run` : instructions and runs are safe;
* `confined_bootReport`, `confined_panicPage` : so are the pages, which are runs;
* `run_bounded` : a run from the first cell on, on any screen.
-/

set_option autoImplicit false

namespace EarlyBoot.Screen

/-! ### The screen is smaller than the address space -/

namespace Geometry

variable (g : Geometry)

/-- The bytes of a screen fit in the address space; this is checked when its shape is set up. -/
theorem size_lt_addressSpace : g.size < addressSpace := g.size_lt

/-- A row takes no more bytes than the screen. -/
theorem pitch_le_size : g.pitch ≤ g.size := Nat.le_mul_of_pos_right _ g.height_pos

/-- The pixels of a row take no more bytes than the screen. -/
theorem rowBytes_le_size : g.rowBytes ≤ g.size := Nat.le_trans g.row_le_pitch g.pitch_le_size

/-- A screen is no wider than it has bytes. -/
theorem width_le_size : g.width ≤ g.size :=
  Nat.le_trans (Nat.le_mul_of_pos_right _ g.depth.bytes_pos) g.rowBytes_le_size

/-- A screen is no higher than it has bytes. -/
theorem height_le_size : g.height ≤ g.size := Nat.le_mul_of_pos_left _ g.pitch_pos

/-- The columns of pixels of a cell are columns of the screen. -/
theorem cell_column_lt {column x : Nat} (hcolumn : column < g.columns) (hx : x < glyphWidth) :
    column * glyphWidth + x < g.width := by
  simp only [columns, glyphWidth] at *
  omega

/-- The rows of pixels of a cell are rows of the screen. -/
theorem cell_row_lt {line y : Nat} (hline : line < g.rows) (hy : y < glyphHeight) :
    line * glyphHeight + y < g.height := by
  simp only [rows, glyphHeight] at *
  omega

end Geometry

/-! ### What a drawing may change -/

namespace Canvas

variable {g : Geometry}

/-- Only bytes of the screen are changed, and none is added or taken away. -/
structure Confined (before after : Canvas g) : Prop where
  size_eq : after.pixels.size = before.pixels.size
  behind_eq : ∀ i, g.size ≤ i → after.pixels[i]? = before.pixels[i]?

/-- The bytes behind the screen belong to no pixel. -/
theorem not_visible_of_le {i : Nat} (hi : g.size ≤ i) : ¬ g.Visible i := by
  rintro ⟨x, y, hx, hy, -, hlt⟩
  exact absurd (Nat.lt_of_lt_of_le hlt (g.offset_add_le hx hy)) (Nat.not_lt.mpr hi)

/-- What paints pixels and keeps the number of bytes is confined to the screen. -/
theorem Paints.confined {area : Nat → Nat → Prop} {color : Nat → Nat → Color}
    {before after : Canvas g} (h : Paints area color before after)
    (hsize : after.pixels.size = before.pixels.size) : Confined before after :=
  ⟨hsize, fun i hi => h.padding i (not_visible_of_le hi)⟩

/-- Moving the text lines up is confined to the screen, since all of them are part of it. -/
theorem confined_shiftLines (canvas : Canvas g) (h : 0 < g.rows) :
    Confined canvas (canvas.shiftLines h) := by
  refine ⟨size_shiftLines canvas h, fun i hi => ?_⟩
  have hlines := g.lines_le
  have hsplit := g.rows_mul_eq h g.lineBytes
  rw [getElem?_shiftLines, if_neg (by omega)]

/-- A scroll is confined to the screen. -/
theorem confined_scroll (canvas : Canvas g) (paper : Color) (h : 0 < g.rows) :
    Confined canvas (canvas.scroll paper h) := by
  have hshift := confined_shiftLines canvas h
  have hfill := (paints_fillRows (canvas.shiftLines h) ((g.rows - 1) * glyphHeight)
    (g.rows * glyphHeight) paper).confined (size_fillRows _ _ _ _)
  exact ⟨hfill.size_eq.trans hshift.size_eq,
    fun i hi => (hfill.behind_eq i hi).trans (hshift.behind_eq i hi)⟩

end Canvas

/-! ### Drawing in words -/

namespace Checked

/-- A step that does not trap hands its value on. -/
theorem bind_ok {α β : Type} (a : α) (f : α → Except Trap β) :
    ((Except.ok a : Except Trap α) >>= f) = f a := rfl

/-- A sum that is a word does not trap. -/
theorem add_eq_ok {a b : Nat} (h : a + b < addressSpace) : add a b = .ok (a + b) := if_pos h

/-- A product that is a word does not trap. -/
theorem mul_eq_ok {a b : Nat} (h : a * b < addressSpace) : mul a b = .ok (a * b) := if_pos h

/-- A difference that is not below zero does not trap. -/
theorem sub_eq_ok {a b : Nat} (h : b ≤ a) : sub a b = .ok (a - b) := if_pos h

/-- Take a loop none of whose steps traps. Then the loop does not trap, and is the `Nat.fold` of
what the steps do. -/
theorem foldlM_range_eq_ok {α : Type} {n : Nat} {step : α → Nat → Except Trap α}
    {plain : (i : Nat) → i < n → α → α} (h : ∀ i hi a, step a i = .ok (plain i hi a)) (a : α) :
    (List.range n).foldlM step a = .ok (Nat.fold n plain a) := by
  induction n with
  | zero => rfl
  | succ n ih =>
      have hfront : (List.range n).foldlM step a =
          .ok (Nat.fold n (fun i hi => plain i (Nat.lt_succ_of_lt hi)) a) :=
        ih fun i hi => h i (Nat.lt_succ_of_lt hi)
      -- The last step comes behind all others, which the hypothesis speaks of.
      rw [List.range_succ, List.foldlM_append, hfront, bind_ok, List.foldlM_cons,
        h n (Nat.lt_succ_self n), Nat.fold_succ]
      rfl

variable {g : Geometry}

/-- Take bytes that lie inside the screen. Then `overwrite` does not trap, and is `Canvas.write`. -/
theorem overwrite_eq_ok (canvas : Canvas g) {first : Nat} {bytes : ByteArray}
    (h : first + bytes.size ≤ g.size) :
    overwrite canvas first bytes = .ok (canvas.write first bytes h) := by
  have hword : first + bytes.size < addressSpace := Nat.lt_of_le_of_lt h g.size_lt_addressSpace
  rw [overwrite, add_eq_ok hword, bind_ok, dif_pos h]
  rfl

/-- No pixel traps, on the screen or beside it: `Checked.putPixel` is `Canvas.putPixel`. -/
theorem putPixel_eq_ok (canvas : Canvas g) (x y : Nat) (color : Color) :
    putPixel canvas x y color = .ok (canvas.putPixel x y color) := by
  by_cases hon : x < g.width ∧ y < g.height
  · have hbeside : ¬ (g.width ≤ x ∨ g.height ≤ y) := by omega
    have hend := g.offset_add_le hon.1 hon.2
    have hsize := g.size_lt_addressSpace
    have hbytes := g.depth.bytes_pos
    have hfits : g.offset x y + (g.pixel color).size ≤ g.size := by
      rw [g.size_pixel]
      exact hend
    simp only [Geometry.offset] at hend hfits
    -- The offset and the end of the pixel are within the buffer, whose size fits a word.
    rw [putPixel, if_neg hbeside, mul_eq_ok (by omega), bind_ok, mul_eq_ok (by omega), bind_ok,
      add_eq_ok (by omega), bind_ok, overwrite_eq_ok canvas hfits, Canvas.putPixel, dif_pos hon]
    rfl
  · have hbeside : g.width ≤ x ∨ g.height ≤ y := by omega
    rw [putPixel, if_pos hbeside, Canvas.putPixel, dif_neg hon]
    rfl

/-- No row of the screen traps: `Checked.fillRow` paints it. -/
theorem fillRow_eq_ok (canvas : Canvas g) {y : Nat} (color : Color) (hy : y < g.height) :
    fillRow canvas y color =
      .ok (canvas.putRow y (Canvas.plainRow g color) hy (Canvas.size_plainRow g color)) := by
  have hrow := g.row_add_le hy
  have hsize := g.size_lt_addressSpace
  have hfits : y * g.pitch + (Canvas.plainRow g color).size ≤ g.size := by
    rw [Canvas.size_plainRow]
    exact hrow
  simp only [Geometry.rowBytes] at hrow
  rw [fillRow, mul_eq_ok (by omega), bind_ok, mul_eq_ok (by omega), bind_ok,
    if_neg (Nat.not_lt.mpr g.row_le_pitch), overwrite_eq_ok canvas hfits]
  rfl

/-- No stretch of rows traps, whatever its bounds: `Checked.fillRows` is `Canvas.fillRows`. -/
theorem fillRows_eq_ok (canvas : Canvas g) (first last : Nat) (color : Color) :
    fillRows canvas first last color = .ok (canvas.fillRows first last color) := by
  unfold fillRows Canvas.fillRows
  refine foldlM_range_eq_ok (fun i hi canvas => ?_) canvas
  exact fillRow_eq_ok canvas color (by omega)

/-- No character traps in a cell of the screen: `Checked.drawGlyph` is `Canvas.drawGlyph`. -/
theorem drawGlyph_eq_ok (canvas : Canvas g) (c : Char) {column line : Nat} (ink paper : Color)
    (hcolumn : column < g.columns) (hline : line < g.rows) :
    drawGlyph canvas c column line ink paper =
      .ok (canvas.drawGlyph c column line ink paper) := by
  have hsize := g.size_lt_addressSpace
  have hwidth := g.width_le_size
  have hheight := g.height_le_size
  have hleft : column * glyphWidth + 0 < g.width := g.cell_column_lt hcolumn (by decide)
  have htop : line * glyphHeight + 0 < g.height := g.cell_row_lt hline (by decide)
  rw [drawGlyph, mul_eq_ok (by omega), bind_ok, mul_eq_ok (by omega), bind_ok]
  -- The pixels of a row are one loop, the rows of the cell another around it.
  refine foldlM_range_eq_ok (fun y hy canvas => ?_) canvas
  refine foldlM_range_eq_ok (fun x hx canvas => ?_) canvas
  have hx' := g.cell_column_lt hcolumn hx
  have hy' := g.cell_row_lt hline hy
  rw [add_eq_ok (by omega), bind_ok, add_eq_ok (by omega), bind_ok]
  exact putPixel_eq_ok canvas _ _ _

/-- On a screen with a text line, moving the lines up does not trap. -/
theorem shiftLines_eq_ok (canvas : Canvas g) (h : 0 < g.rows) :
    shiftLines canvas = .ok (canvas.shiftLines h) := by
  have hsize := g.size_lt_addressSpace
  have hlines := g.lines_le
  have hsplit := g.rows_mul_eq h g.lineBytes
  have hcount : g.rows * g.lineBytes - g.lineBytes = (g.rows - 1) * g.lineBytes := by omega
  simp only [Geometry.lineBytes] at hlines hsplit hcount
  rw [shiftLines, mul_eq_ok (by omega), bind_ok, mul_eq_ok (by omega), bind_ok,
    dif_pos ⟨by omega, by omega⟩]
  simp only [hcount]
  rfl

/-- On a screen with a text line, a scroll does not trap: `Checked.scroll` is `Canvas.scroll`. -/
theorem scroll_eq_ok (canvas : Canvas g) (paper : Color) (h : 0 < g.rows) :
    scroll canvas paper = .ok (canvas.scroll paper h) := by
  have hsize := g.size_lt_addressSpace
  have hheight := g.height_le_size
  have hrows := g.rows_mul_le
  have hlast := g.rows_mul_eq h glyphHeight
  have hlines : sub g.rows 1 = .ok (g.rows - 1) := sub_eq_ok h
  rw [scroll, shiftLines_eq_ok canvas h, bind_ok, hlines, bind_ok, mul_eq_ok (by omega), bind_ok,
    add_eq_ok (by omega), bind_ok, fillRows_eq_ok, ← hlast]
  rfl

/-- Take a character that is neither a line feed nor a carriage return nor a tab, on a screen with
room for a cell. Then `Checked.putChar` is `Checked.print`. -/
theorem putChar_of_print {c : Console} {ch : Char}
    (hcell : ¬ (c.geometry.columns = 0 ∨ c.geometry.rows = 0)) (hfeed : ch ≠ '\n')
    (hreturn : ch ≠ '\r') (htab : ch ≠ '\t') : putChar c ch = print c ch := by
  unfold putChar
  rw [if_neg hcell]
  split
  · exact absurd rfl hfeed
  · exact absurd rfl hreturn
  · exact absurd rfl htab
  · rfl

end Checked

/-! ### Safe drawings -/

namespace Console

/-- The cursor is in a column of the screen or just behind the last one, and on a text
line of the screen, or the first one of a screen without text lines. -/
structure Bounded (c : Console) : Prop where
  column_le : c.column ≤ c.geometry.columns
  line_lt : c.line < max c.geometry.rows 1

/-- Only bytes of the screen are changed, and the screen keeps its shape. -/
structure Confined (c d : Console) : Prop where
  geometry_eq : d.geometry = c.geometry
  size_eq : d.pixels.size = c.pixels.size
  behind_eq : ∀ i, c.geometry.size ≤ i → d.pixels[i]? = c.pixels[i]?

/-- What changes nothing is confined to the screen. -/
theorem Confined.refl (c : Console) : Confined c c := ⟨rfl, rfl, fun _ _ => rfl⟩

/-- Two drawings in a row are confined to the screen if each of them is. -/
theorem Confined.trans {c d e : Console} (h : Confined c d) (h' : Confined d e) :
    Confined c e where
  geometry_eq := h'.geometry_eq.trans h.geometry_eq
  size_eq := h'.size_eq.trans h.size_eq
  behind_eq i hi := (h'.behind_eq i (h.geometry_eq ▸ hi)).trans (h.behind_eq i hi)

/-- A console with another canvas is confined if the canvas is, wherever the cursor goes. -/
theorem Confined.ofCanvas {c : Console} {canvas : Canvas c.geometry}
    (h : Canvas.Confined c.canvas canvas) (column line : Nat) :
    Confined c { c with canvas, column, line } :=
  ⟨rfl, h.size_eq, h.behind_eq⟩

/-- A drawing that starts on the console `c` ends on `d` without a trap. -/
structure Safe (c : Console) (drawing : Except Trap Console) (d : Console) : Prop where
  eq_ok : drawing = .ok d
  bounded : Bounded d
  confined : Confined c d

variable {c d e : Console}

/-- A safe drawing stays safe when a confined change is put in front of it. -/
theorem Safe.after {drawing : Except Trap Console} (h : Safe d drawing e) (hcd : Confined c d) :
    Safe c drawing e :=
  ⟨h.eq_ok, h.bounded, hcd.trans h.confined⟩

/-- One safe drawing after another is safe. The second only has to be safe on a console whose cursor
is in its bounds. -/
theorem Safe.bind {drawing : Except Trap Console} {next : Console → Except Trap Console}
    (h : Safe c drawing d) (hnext : Bounded d → Safe d (next d) e) :
    Safe c (drawing >>= next) e := by
  rw [h.eq_ok, Checked.bind_ok]
  exact (hnext h.bounded).after h.confined

/-- Safe steps, one for each item of a list, are safe together. This carries `write` and `run`. -/
theorem Safe.foldlM {α : Type} {step : Console → α → Except Trap Console}
    {plain : Console → α → Console}
    (h : ∀ c a, Bounded c → Safe c (step c a) (plain c a)) (items : List α) (hc : Bounded c) :
    Safe c (items.foldlM step c) (items.foldl plain c) := by
  -- What one step leaves is what the others start with.
  induction items generalizing c with
  | nil => exact ⟨rfl, hc, .refl c⟩
  | cons a items ih =>
      rw [List.foldlM_cons, List.foldl_cons]
      exact (h c a hc).bind ih

/-- Moving the cursor to a place in the bounds is safe. -/
theorem safe_moveTo {column line : Nat} (hcolumn : column ≤ c.geometry.columns)
    (hline : line < max c.geometry.rows 1) :
    Safe c (.ok { c with column, line }) { c with column, line } :=
  ⟨rfl, ⟨hcolumn, hline⟩, ⟨rfl, rfl, fun _ _ => rfl⟩⟩

/-- Choosing colours is safe. -/
theorem safe_setColors (ink paper : Color) (hc : Bounded c) :
    Safe c (.ok (c.setColors ink paper)) (c.setColors ink paper) :=
  ⟨rfl, ⟨hc.column_le, hc.line_lt⟩, ⟨rfl, rfl, fun _ _ => rfl⟩⟩

/-! ### Text -/

/-- A new line is safe, with or without a scroll. -/
theorem safe_newline (hc : Bounded c) : Safe c (Checked.newline c) c.newline := by
  rcases Nat.eq_zero_or_pos c.geometry.rows with hrows | hrows
  · rw [Checked.newline, if_pos hrows, newline_of_no_row hrows]
    exact ⟨rfl, hc, .refl c⟩
  · have hline := hc.line_lt
    have hsize := c.geometry.size_lt_addressSpace
    have hheight := c.geometry.height_le_size
    have hlines := c.geometry.rows_mul_le
    have hword : c.line + 1 < addressSpace := by
      simp only [glyphHeight] at hlines
      omega
    rw [Checked.newline, if_neg (Nat.ne_of_gt hrows), Checked.add_eq_ok hword, Checked.bind_ok]
    -- The cursor goes down as long as there is a text line below it.
    rcases Nat.lt_or_ge (c.line + 1) c.geometry.rows with hlt | hle
    · rw [if_pos hlt, newline_of_lt hlt]
      exact safe_moveTo (Nat.zero_le _) (by omega)
    · rw [if_neg (Nat.not_lt.mpr hle), newline_of_le hrows hle,
        Checked.scroll_eq_ok c.canvas c.paper hrows]
      exact ⟨rfl, ⟨Nat.zero_le _, hline⟩,
        .ofCanvas (Canvas.confined_scroll c.canvas c.paper hrows) 0 c.line⟩

/-- A tab is safe. -/
theorem safe_tab (hc : Bounded c) : Safe c (Checked.tab c) c.tab := by
  have hcolumn := hc.column_le
  have hsize := c.geometry.size_lt_addressSpace
  have hwidth := c.geometry.width_le_size
  have hspace : addressSpace = 18446744073709551616 := rfl
  have hcolumns : c.geometry.columns * 8 ≤ c.geometry.width := Nat.div_mul_le_self _ _
  -- The next stop is at most four columns away, and eight times the columns still fit a word.
  have hstops : c.column / tabWidth + 1 < addressSpace := by
    simp only [tabWidth]
    omega
  have hstop : (c.column / tabWidth + 1) * tabWidth < addressSpace := by
    simp only [tabWidth]
    omega
  rw [Checked.tab, Checked.add_eq_ok hstops, Checked.bind_ok, Checked.mul_eq_ok hstop,
    Checked.bind_ok]
  unfold tab
  dsimp only
  split
  · exact safe_newline hc
  · exact safe_moveTo (by omega) hc.line_lt

/-- Drawing a character at a cursor with room for a cell is safe. -/
theorem safe_printHere (ch : Char) (hc : Bounded c) (hcolumn : c.column < c.geometry.columns)
    (hrows : 0 < c.geometry.rows) : Safe c (Checked.printHere c ch) (c.printHere ch) := by
  have hsize := c.geometry.size_lt_addressSpace
  have hwidth := c.geometry.width_le_size
  have hcell := c.geometry.cell_column_lt hcolumn (show 0 < glyphWidth by decide)
  have hline : c.line < c.geometry.rows := by
    have hlt := hc.line_lt
    omega
  have hword : c.column + 1 < addressSpace := by
    simp only [glyphWidth] at hcell
    omega
  have hpaint := Canvas.paints_drawGlyph c.canvas ch c.column c.line c.ink c.paper
  rw [Checked.printHere, Checked.drawGlyph_eq_ok c.canvas ch c.ink c.paper hcolumn hline,
    Checked.bind_ok, Checked.add_eq_ok hword, Checked.bind_ok]
  exact ⟨rfl, ⟨hcolumn, hc.line_lt⟩,
    .ofCanvas (hpaint.confined (Canvas.size_drawGlyph _ _ _ _ _ _)) (c.column + 1) c.line⟩

/-- A new line starts in the first column, where there is room for a cell if there is a column. -/
theorem newline_column (hrows : 0 < c.geometry.rows) : c.newline.column = 0 := by
  rw [newline, dif_pos hrows]
  split <;> rfl

/-- Drawing a character is safe on a screen with room for a cell, also where it needs a new line
first. -/
theorem safe_print (ch : Char) (hc : Bounded c) (hcolumns : 0 < c.geometry.columns)
    (hrows : 0 < c.geometry.rows) : Safe c (Checked.print c ch) (c.print ch) := by
  unfold Checked.print print
  split
  · have hnewline := safe_newline hc
    have hshape := hnewline.confined.geometry_eq
    refine hnewline.bind fun hbounded => safe_printHere ch hbounded ?_ ?_
    · rw [newline_column hrows, hshape]
      exact hcolumns
    · rw [hshape]
      exact hrows
  · exact safe_printHere ch hc (by omega) hrows

/-- Writing a character is safe on any screen. -/
theorem safe_putChar (ch : Char) (hc : Bounded c) :
    Safe c (Checked.putChar c ch) (c.putChar ch) := by
  by_cases hcell : c.geometry.columns = 0 ∨ c.geometry.rows = 0
  · unfold Checked.putChar
    rw [if_pos hcell, putChar_of_no_cell hcell]
    exact ⟨rfl, hc, .refl c⟩
  · -- Both sides branch on the character the same way, so each case compares two bodies.
    by_cases hfeed : ch = '\n'
    · subst hfeed
      rw [Checked.putChar, putChar, if_neg hcell, if_neg hcell]
      exact safe_newline hc
    by_cases hreturn : ch = '\r'
    · subst hreturn
      rw [Checked.putChar, putChar, if_neg hcell, if_neg hcell]
      exact safe_moveTo (Nat.zero_le _) hc.line_lt
    by_cases htab : ch = '\t'
    · subst htab
      rw [Checked.putChar, putChar, if_neg hcell, if_neg hcell]
      exact safe_tab hc
    rw [Checked.putChar_of_print hcell hfeed hreturn htab,
      putChar_of_print hcell hfeed hreturn htab]
    exact safe_print ch hc (by omega) (by omega)

/-- Writing a text is safe on any screen, by `safe_putChar` for each character. -/
theorem safe_write (text : String) (hc : Bounded c) :
    Safe c (Checked.write c text) (c.write text) :=
  Safe.foldlM (fun _ ch h => safe_putChar ch h) text.toList hc

/-- A status line is safe on any screen. -/
theorem safe_status (status : Status) (text : String) (hc : Bounded c) :
    Safe c (Checked.status c status text) (c.status status text) := by
  have hcolors := safe_setColors status.color c.paper hc
  have htext := (safe_write (status.label ++ text) hcolors.bounded).after hcolors.confined
  exact htext.bind (safe_setColors c.ink c.paper)

/-! ### Runs -/

/-- Painting the whole screen is safe. -/
theorem safe_fill (color : Color) (hc : Bounded c) :
    Safe c (Checked.fill c color) (c.fill color) := by
  have hpaint := Canvas.paints_fill c.canvas color
  rw [Checked.fill, Checked.fillRows_eq_ok, Checked.bind_ok]
  exact ⟨rfl, ⟨hc.column_le, hc.line_lt⟩,
    .ofCanvas (hpaint.confined (Canvas.size_fillRows _ _ _ _)) c.column c.line⟩

/-- Painting a pixel is safe, on the screen or beside it. -/
theorem safe_putPixel (x y : Nat) (color : Color) (hc : Bounded c) :
    Safe c (Checked.follow c (.putPixel x y color)) (c.putPixel x y color) := by
  have hpaint := Canvas.paints_putPixel c.canvas x y color
  rw [Checked.follow, Checked.putPixel_eq_ok, Checked.bind_ok]
  exact ⟨rfl, ⟨hc.column_le, hc.line_lt⟩,
    .ofCanvas (hpaint.confined (Canvas.size_putPixel _ _ _ _)) c.column c.line⟩

/-- One step keeps the bounds: no instruction traps, each leaves the cursor in its bounds, and each
is confined to the screen. -/
theorem safe_follow (instruction : Instruction) (hc : Bounded c) :
    Safe c (Checked.follow c instruction) (c.follow instruction) := by
  cases instruction with
  | fill color => exact safe_fill color hc
  | clear =>
      exact (safe_fill c.paper hc).bind fun _ =>
        safe_moveTo (Nat.zero_le _) (Nat.lt_of_lt_of_le Nat.zero_lt_one (Nat.le_max_right _ _))
  | putPixel x y color => exact safe_putPixel x y color hc
  | putChar ch => exact safe_putChar ch hc
  | write text => exact safe_write text hc
  | newline => exact safe_newline hc
  | setColors ink paper => exact safe_setColors ink paper hc
  | status status text => exact safe_status status text hc

/-- A run keeps the bounds, by `safe_follow` at each instruction. -/
theorem safe_run (instructions : List Instruction) (hc : Bounded c) :
    Safe c (Checked.run c instructions) (c.run instructions) :=
  Safe.foldlM (fun _ i h => safe_follow i h) instructions hc

/-- The page of a good start is drawn inside the screen. -/
theorem confined_bootReport (hc : Bounded c) (info : BootInfo) :
    Confined c (c.clear.bootReport info) := by
  have hclear := safe_follow .clear hc
  rw [bootReport_eq_run]
  exact hclear.confined.trans (safe_run _ hclear.bounded).confined

/-- The page of a panic is drawn inside the screen. -/
theorem confined_panicPage (hc : Bounded c) (message : String) (location : Option Location) :
    Confined c (c.panicPage message location) := by
  rw [panicPage_eq_run]
  exact (safe_run _ hc).confined

/-- A console that is set up starts in the first cell, which is in the bounds of any screen. -/
theorem bounded_onPixels {g : Geometry} {pixels : ByteArray}
    (h : onPixels g pixels = .ok c) : c.geometry = g ∧ c.pixels = pixels ∧ Bounded c := by
  unfold onPixels at h
  split at h
  · rw [Except.ok.injEq] at h
    subst h
    exact ⟨rfl, rfl, Nat.zero_le _, Nat.lt_of_lt_of_le Nat.zero_lt_one (Nat.le_max_right _ _)⟩
  · cases h

/-- Take any screen whose bytes are there, and any instructions. Then the run in checked words is
`ok`: no sum or product on the way overflows and no access leaves the screen. Afterwards the cursor
is in its bounds, every pixel of the screen can be painted, and the bytes behind the screen are as
they were. This holds after each step, since the steps up to it are a run of their own. -/
theorem run_bounded {g : Geometry} {pixels : ByteArray} (h : g.size ≤ pixels.size) :
    ∃ c, onPixels g pixels = .ok c ∧ ∀ instructions : List Instruction, ∃ d,
      c.run instructions = d ∧ Checked.run c instructions = .ok d ∧
      d.geometry = g ∧ d.column ≤ g.columns ∧ d.line < max g.rows 1 ∧
      (∀ x y color, x < g.width → y < g.height →
        (d.putPixel x y color).pixels.extract (g.offset x y) (g.offset x y + g.depth.bytes) =
          g.encoded color) ∧
      d.pixels.size = pixels.size ∧ ∀ i, g.size ≤ i → d.pixels[i]? = pixels[i]? := by
  have hset : onPixels g pixels = .ok { geometry := g, canvas := ⟨pixels, h⟩ } := dif_pos h
  obtain ⟨-, -, hstart⟩ := bounded_onPixels hset
  refine ⟨_, hset, fun instructions => ?_⟩
  have hsafe := safe_run instructions hstart
  obtain ⟨hcolumn, hline⟩ := hsafe.bounded
  obtain ⟨hgeometry, hsize, hbehind⟩ := hsafe.confined
  -- From here on only the shape of the console at the end matters, not how it got there.
  generalize Console.run _ instructions = d at *
  dsimp only at hgeometry hbehind
  subst hgeometry
  refine ⟨d, rfl, hsafe.eq_ok, rfl, hcolumn, hline, ?_, hsize, hbehind⟩
  intro x y color hx hy
  have hpainted := (Canvas.paints_putPixel d.canvas x y color).painted x y hx hy ⟨rfl, rfl⟩
  exact hpainted.trans (d.geometry.pixel_eq_encoded color)

/-- Take a screen with one column and two text lines, with two bytes between rows and ten behind it.
Then `run_bounded` covers a tab that finds no stop, a character that finds no room, and one that
makes the text scroll. -/
theorem run_bounded_one_column :
    let g : Geometry := ⟨9, 33, 20, .bits16, .bgrx, by decide, by decide, by decide, by decide⟩
    let memory := Bytes.filled 670 0xAA
    let steps : List Instruction :=
      [.putChar 'A', .putChar '\t', .putChar 'B', .putChar 'C', .putPixel 9 32 .red, .status .ok ""]
    g.size ≤ memory.size ∧ ∃ c, onPixels g memory = .ok c ∧ ∃ d,
      c.run steps = d ∧ Checked.run c steps = .ok d ∧ d.column ≤ 1 ∧ d.line < 2 ∧
      d.pixels.size = 670 ∧ d.pixels[660]? = some 0xAA := by
  intro g memory steps
  have hfits : g.size ≤ memory.size := by decide +kernel
  refine ⟨hfits, ?_⟩
  obtain ⟨c, hset, hruns⟩ := run_bounded hfits
  obtain ⟨d, hrun, hchecked, -, hcolumn, hline, -, hsize, hbehind⟩ := hruns steps
  have hcolumns : g.columns = 1 := by decide
  have hlines : max g.rows 1 = 2 := by decide
  rw [hcolumns] at hcolumn
  rw [hlines] at hline
  have hcount : memory.size = 670 := by decide +kernel
  have hlast : memory[660]? = some 0xAA := by decide +kernel
  exact ⟨c, hset, d, hrun, hchecked, hcolumn, hline, hsize.trans hcount,
    (hbehind 660 (by decide)).trans hlast⟩

end Console

end EarlyBoot.Screen

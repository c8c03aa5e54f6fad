import EarlyBoot.Proofs.Screen.Painting
import EarlyBoot.Screen.Sheet

/-!
# `EarlyBoot.Proofs.Screen.Window`: a console is a window onto a sheet

A console draws over its own pixels and moves them when it scrolls; a sheet keeps
every character that was ever printed on it and never moves anything. `Shows` says
that what is on the screen is the window of a sheet: the cursors agree, and every
pixel is encoded in the colour that the sheet has there. Clearing the console
establishes it with an empty sheet, and every instruction about text preserves it.

What the console paints is said by `Geometry.pixel`; the result says what that is, the bytes
of the encoded colour (`Geometry.encoded`).

The case with an argument in it is the new line below the last one. The console
moves its text lines up and blanks the last, the sheet moves its window down by
one line. The line that comes into view is blank on the sheet too, since nothing
has been printed below the line of the cursor.

Main statements:

* `Shows.newline`, `Shows.printHere` : the two steps that draw;
* `Shows.run` : every run of instructions about text preserves the relation;
* `run_clear_eq_window` : after a clear, a console shows the window of a sheet.
-/

set_option autoImplicit false

namespace EarlyBoot.Screen

/-! ### The window of a sheet -/

namespace Sheet

/-- The line of the cursor is inside the window. -/
theorem line_sub_top (s : Sheet) : s.line - s.top = min s.line (s.rows - 1) := by
  unfold top
  omega

/-- In the lines of the window a pixel of a printed cell has the colour of its glyph, and one of
another cell the ground of its line. -/
theorem color_of_lt (s : Sheet) (x : Nat) {y : Nat} (h : y < s.rows * glyphHeight) :
    s.color x y =
      match s.prints (x / glyphWidth) (s.top + y / glyphHeight) with
      | none       => s.grounds (s.top + y / glyphHeight)
      | some print => Canvas.glyphColor print.char print.ink print.paper x y := by
  rw [color, if_pos h]
  rfl

/-- Below the lines of the window there is the ground of the sheet. -/
theorem color_of_le (s : Sheet) (x : Nat) {y : Nat} (h : s.rows * glyphHeight ≤ y) :
    s.color x y = s.ground := by
  rw [color, if_neg (Nat.not_lt.mpr h)]

end Sheet

/-- What is on the screen of a console, whose shape is `g`, is the window of a sheet. -/
structure Shows (g : Geometry) (s : Sheet) (c : Console) : Prop where
  geometry_eq : c.geometry = g
  columns_eq : s.columns = c.geometry.columns
  rows_eq : s.rows = c.geometry.rows
  /-- There is room for a character. -/
  columns_pos : 0 < s.columns
  rows_pos : 0 < s.rows
  column_eq : c.column = s.column
  line_eq : c.line = s.line - s.top
  ink_eq : c.ink = s.ink
  paper_eq : c.paper = s.paper
  /-- Nothing has been printed below the line of the cursor. -/
  prints_below : ∀ column line, s.line < line → s.prints column line = none
  pixels_eq : ∀ x y, x < c.geometry.width → y < c.geometry.height →
    c.canvas.pixelAt x y = c.geometry.pixel (s.color x y)

namespace Shows

variable {g : Geometry} {s : Sheet} {c : Console}

/-! ### Where the console starts -/

/-- A console that has been cleared shows an empty sheet in its colours. -/
theorem clear (c : Console) (hcolumns : 0 < c.geometry.columns) (hrows : 0 < c.geometry.rows) :
    Shows c.geometry (Sheet.blank c.geometry c.ink c.paper) c.clear where
  geometry_eq := rfl
  columns_eq := rfl
  rows_eq := rfl
  columns_pos := hcolumns
  rows_pos := hrows
  column_eq := rfl
  line_eq := (Nat.zero_sub _).symm
  ink_eq := rfl
  paper_eq := rfl
  prints_below _ _ _ := rfl
  pixels_eq x y hx hy := by
    have hcolor : (Sheet.blank c.geometry c.ink c.paper).color x y = c.paper := by
      unfold Sheet.color
      split <;> rfl
    rw [hcolor]
    exact (Canvas.paints_fill c.canvas c.paper).painted x y hx hy trivial

/-! ### Steps without drawing -/

/-- Choosing the same colours on both sides preserves the relation. -/
theorem setColors (h : Shows g s c) (ink paper : Color) :
    Shows g (s.setColors ink paper) (c.setColors ink paper) :=
  { h with ink_eq := rfl, paper_eq := rfl }

/-- Moving both cursors to the same column preserves the relation. -/
theorem moveTo (h : Shows g s c) (column : Nat) :
    Shows g { s with column } { c with column } :=
  { h with column_eq := rfl }

/-! ### A new line -/

/-- As long as the window has lines below the cursor, a new line moves the cursor, and the window
stays where it is. -/
theorem newline_of_lt (h : Shows g s c) (hlt : s.line + 1 < s.rows) :
    Shows g s.newline c.newline := by
  have hrows : 0 < c.geometry.rows := h.rows_eq ▸ h.rows_pos
  have hnot : ¬ s.rows ≤ s.line + 1 := Nat.not_le.mpr hlt
  -- Nothing has left the window, neither before nor after.
  have htop : s.top = 0 := by
    unfold Sheet.top
    omega
  have htop' : s.newline.top = 0 := by
    show s.line + 1 - (s.rows - 1) = 0
    omega
  have hline : c.line = s.line := by rw [h.line_eq, htop, Nat.sub_zero]
  have hconsole : c.newline = { c with column := 0, line := c.line + 1 } := by
    rw [Console.newline, dif_pos hrows, if_pos (by rw [hline, ← h.rows_eq]; exact hlt)]
  have hgrounds : s.newline.grounds = s.grounds := by
    funext l
    exact if_neg fun hl => hnot hl.2
  rw [hconsole]
  exact { h with
    column_eq := rfl
    line_eq := by
      show c.line + 1 = s.line + 1 - s.newline.top
      rw [htop', hline, Nat.sub_zero]
    prints_below := fun column line hlt => h.prints_below column line (Nat.lt_of_succ_lt hlt)
    pixels_eq := by
      intro x y hx hy
      rw [h.pixels_eq x y hx hy, Sheet.color, Sheet.color, htop, htop', hgrounds]
      rfl }

/-- Below the last line the window of the longer sheet moves down by one: each line but the last
shows what the one below it did, and the last has the ground of the new line. -/
theorem color_newline (h : Shows g s c) (hle : s.rows ≤ s.line + 1) (x y : Nat) :
    s.newline.color x y =
      if y < (s.rows - 1) * glyphHeight then s.color x (y + glyphHeight)
      else if y < s.rows * glyphHeight then s.paper
      else s.color x y := by
  have hpos := h.rows_pos
  have htop : s.newline.top = s.top + 1 := by
    show s.line + 1 - (s.rows - 1) = s.line - (s.rows - 1) + 1
    omega
  have hlast : s.top + (s.rows - 1) = s.line := by
    unfold Sheet.top
    omega
  have hrows : s.newline.rows = s.rows := rfl
  -- The lines that move up, the one that comes in, and what is below all text lines.
  split
  · rename_i hy
    -- The line is one above the new one, so its ground is the old one.
    have hline : s.newline.top + y / glyphHeight = s.top + (y + glyphHeight) / glyphHeight := by
      rw [htop]
      simp only [glyphHeight]
      omega
    have hold : s.newline.grounds (s.top + (y + glyphHeight) / glyphHeight) =
        s.grounds (s.top + (y + glyphHeight) / glyphHeight) := by
      refine if_neg fun hnew => ?_
      simp only [glyphHeight] at hy hnew
      omega
    have hglyph (print : Print) : Canvas.glyphColor print.char print.ink print.paper x y =
        Canvas.glyphColor print.char print.ink print.paper x (y + glyphHeight) := by
      unfold Canvas.glyphColor
      rw [Nat.add_mod_right]
    have hinside : y < s.newline.rows * glyphHeight ∧ y + glyphHeight < s.rows * glyphHeight := by
      rw [hrows]
      simp only [glyphHeight] at hy ⊢
      omega
    rw [Sheet.color_of_lt _ _ hinside.1, Sheet.color_of_lt _ _ hinside.2, hline, hold]
    simp only [hglyph]
    rfl
  · rename_i habove
    split
    · rename_i hy
      -- This is the new line itself: nothing is printed there, and its ground is new.
      have hline : s.newline.top + y / glyphHeight = s.line + 1 := by
        rw [htop]
        simp only [glyphHeight] at habove hy ⊢
        omega
      have hblank : s.newline.prints (x / glyphWidth) (s.line + 1) = none :=
        h.prints_below _ _ (Nat.lt_succ_self s.line)
      have hground : s.newline.grounds (s.line + 1) = s.paper := if_pos ⟨rfl, hle⟩
      rw [Sheet.color_of_lt _ _ (hrows ▸ hy), hline, hblank]
      exact hground
    · rename_i hbelow
      have hbelow := Nat.not_lt.mp hbelow
      rw [Sheet.color_of_le _ _ (hrows ▸ hbelow), Sheet.color_of_le _ _ hbelow]
      rfl

/-- Below the last line of the window the console scrolls, and shows the longer sheet. -/
theorem newline_of_le (h : Shows g s c) (hle : s.rows ≤ s.line + 1) :
    Shows g s.newline c.newline := by
  have hpos := h.rows_pos
  have hrows : 0 < c.geometry.rows := h.rows_eq ▸ h.rows_pos
  have hline : c.line = s.rows - 1 := by
    rw [h.line_eq, s.line_sub_top]
    omega
  -- The cursor is on the last text line, so the console scrolls and does not move it.
  have hconsole : c.newline =
      { c with canvas := c.canvas.scroll c.paper hrows, column := 0 } := by
    rw [Console.newline, dif_pos hrows, if_neg (by rw [hline, ← h.rows_eq]; omega)]
  rw [hconsole]
  exact { h with
    column_eq := rfl
    line_eq := by
      have hrows' : s.newline.rows = s.rows := rfl
      have hline' : s.newline.line = s.line + 1 := rfl
      show c.line = s.newline.line - s.newline.top
      rw [s.newline.line_sub_top, hrows', hline', hline]
      omega
    prints_below := fun column line hlt => h.prints_below column line (Nat.lt_of_succ_lt hlt)
    pixels_eq := by
      intro x y hx hy
      have hsplit := c.geometry.rows_mul_eq hrows glyphHeight
      have hheight := c.geometry.rows_mul_le
      show (c.canvas.scroll c.paper hrows).pixelAt x y = _
      rw [Canvas.pixelAt_scroll c.canvas c.paper hrows hx hy, h.color_newline hle, h.rows_eq,
        ← h.paper_eq]
      -- Scroll and sheet tell the same three areas apart.
      split
      · exact h.pixels_eq x (y + glyphHeight) hx (by omega)
      · split
        · rfl
        · exact h.pixels_eq x y hx hy }

/-- A new line on the screen is a new line on the sheet, with or without a scroll. -/
theorem newline (h : Shows g s c) : Shows g s.newline c.newline := by
  rcases Nat.lt_or_ge (s.line + 1) s.rows with hlt | hle
  · exact h.newline_of_lt hlt
  · exact h.newline_of_le hle

/-! ### Printing -/

/-- Printing a character colours the pixels of its cell as its glyph says, and no others. -/
theorem color_printHere (h : Shows g s c) (ch : Char) (x y : Nat) :
    (s.printHere ch).color x y =
      if x / glyphWidth = c.column ∧ y / glyphHeight = c.line then
        Canvas.glyphColor ch s.ink s.paper x y
      else s.color x y := by
  have htop : (s.printHere ch).top = s.top := rfl
  have hrows : (s.printHere ch).rows = s.rows := rfl
  have hline : c.line = min s.line (s.rows - 1) := by rw [h.line_eq, s.line_sub_top]
  -- The line of the cursor is the same one on the screen and on the sheet.
  have hsame : y / glyphHeight = c.line ↔ s.top + y / glyphHeight = s.line := by
    rw [h.line_eq]
    unfold Sheet.top
    omega
  have hpos := h.rows_pos
  by_cases hy : y < s.rows * glyphHeight
  · rw [Sheet.color_of_lt _ _ (hrows ▸ hy), Sheet.color_of_lt _ _ hy, htop]
    -- On the sheet only the cell at the cursor is another one.
    by_cases hcell : x / glyphWidth = s.column ∧ s.top + y / glyphHeight = s.line
    · have hprint : (s.printHere ch).prints (x / glyphWidth) (s.top + y / glyphHeight) =
          some ⟨ch, s.ink, s.paper⟩ := if_pos hcell
      rw [if_pos ⟨hcell.1.trans h.column_eq.symm, hsame.mpr hcell.2⟩, hprint]
    · have hprint : (s.printHere ch).prints (x / glyphWidth) (s.top + y / glyphHeight) =
          s.prints (x / glyphWidth) (s.top + y / glyphHeight) := if_neg hcell
      have hother : ¬ (x / glyphWidth = c.column ∧ y / glyphHeight = c.line) := fun hin =>
        hcell ⟨hin.1.trans h.column_eq, hsame.mp hin.2⟩
      rw [if_neg hother, hprint]
      rfl
  · -- No cell reaches below the text lines.
    have hbelow := Nat.not_lt.mp hy
    have hother : ¬ (x / glyphWidth = c.column ∧ y / glyphHeight = c.line) := by
      rintro ⟨-, hyline⟩
      simp only [glyphHeight] at hbelow hyline
      omega
    rw [if_neg hother, Sheet.color_of_le _ _ (hrows ▸ hbelow), Sheet.color_of_le _ _ hbelow]
    rfl

/-- A character that is drawn at the cursor is printed at the cursor of the sheet. -/
theorem printHere (h : Shows g s c) (ch : Char) : Shows g (s.printHere ch) (c.printHere ch) :=
  { h with
    column_eq := congrArg (· + 1) h.column_eq
    prints_below := by
      intro column line hlt
      have hother : ¬ (column = s.column ∧ line = s.line) := fun hcell =>
        absurd hcell.2 (Nat.ne_of_gt hlt)
      exact (if_neg hother).trans (h.prints_below column line hlt)
    pixels_eq := by
      intro x y hx hy
      have hpaint := Canvas.paints_drawGlyph c.canvas ch c.column c.line c.ink c.paper
      show (c.canvas.drawGlyph ch c.column c.line c.ink c.paper).pixelAt x y = _
      rw [h.color_printHere ch x y]
      -- A glyph covers its own cell and no other.
      by_cases hcell : x / glyphWidth = c.column ∧ y / glyphHeight = c.line
      · rw [if_pos hcell, hpaint.painted x y hx hy hcell, h.ink_eq, h.paper_eq]
        rfl
      · rw [if_neg hcell, hpaint.kept x y hx hy hcell]
        exact h.pixels_eq x y hx hy }

/-- A character that finds its line full goes to a new line on both sides. -/
theorem print (h : Shows g s c) (ch : Char) :
    Shows g (if s.columns ≤ s.column then s.newline.printHere ch else s.printHere ch)
      (c.print ch) := by
  rw [Console.print, ← h.columns_eq, h.column_eq]
  -- Both sides ask whether the same column is the last.
  split
  · exact h.newline.printHere ch
  · exact h.printHere ch

/-- A tab goes to the next stop, or to a new line, on both sides. -/
theorem tab (h : Shows g s c) : Shows g s.tab c.tab := by
  unfold Sheet.tab Console.tab
  rw [← h.columns_eq, h.column_eq]
  dsimp only
  split
  · exact h.newline
  · exact h.moveTo _

/-! ### Texts -/

/-- What a character of any kind does to the screen it does to the sheet. -/
theorem putChar (h : Shows g s c) (ch : Char) : Shows g (s.putChar ch) (c.putChar ch) := by
  -- The screen has room for a character, so the console drops none.
  have hcell : ¬ (c.geometry.columns = 0 ∨ c.geometry.rows = 0) := by
    have hcolumns := h.columns_pos
    have hrows := h.rows_pos
    rw [← h.columns_eq, ← h.rows_eq]
    omega
  unfold Sheet.putChar
  split
  · rw [Console.putChar, if_neg hcell]
    exact h.newline
  · rw [Console.putChar, if_neg hcell]
    exact h.moveTo 0
  · rw [Console.putChar, if_neg hcell]
    exact h.tab
  · rename_i hfeed hreturn htab
    rw [Console.putChar, if_neg hcell]
    · exact h.print ch
    · exact hfeed
    · exact hreturn
    · exact htab

/-- What a text does to the screen it does to the sheet, character by character. -/
theorem write (h : Shows g s c) (text : String) : Shows g (s.write text) (c.write text) := by
  unfold Sheet.write Console.write
  -- Both sides fold over the same characters, and each of them keeps the relation.
  induction text.toList generalizing s c with
  | nil => exact h
  | cons ch chs ih => exact ih (h.putChar ch)

/-- A status line is a text in other colours, which are put back on both sides. -/
theorem status (h : Shows g s c) (status : Status) (text : String) :
    Shows g (s.status status text) (c.status status text) := by
  unfold Sheet.status Console.status
  rw [h.ink_eq, h.paper_eq]
  -- Both sides take the colour of the label and put the old colours back at the end.
  exact ((h.setColors status.color s.paper).write (status.label ++ text)).setColors s.ink s.paper

/-- One step preserves the relation: what an instruction about text does to the screen,
`Sheet.follow` does to the sheet. -/
theorem follow (h : Shows g s c) (instruction : Console.Instruction)
    (htext : instruction.isText = true) :
    Shows g (s.follow instruction) (c.follow instruction) := by
  cases instruction with
  | fill | clear | putPixel => cases htext
  | putChar ch => exact h.putChar ch
  | write text => exact h.write text
  | newline => exact h.newline
  | setColors ink paper => exact h.setColors ink paper
  | status status text => exact h.status status text

/-- A run of instructions about text preserves the relation, by `follow` at each of them. -/
theorem run (h : Shows g s c) (instructions : List Console.Instruction)
    (htext : ∀ i ∈ instructions, i.isText = true) :
    Shows g (s.run instructions) (c.run instructions) := by
  unfold Sheet.run Console.run
  -- What one instruction leaves is what the others start with.
  induction instructions generalizing s c with
  | nil => exact h
  | cons i is ih =>
      obtain ⟨hi, his⟩ := List.forall_mem_cons.mp htext
      exact ih (h.follow i hi) his

end Shows

/-- Take a console on a screen of at least one cell, clear it, and let it follow instructions about
text. Then it shows the window of a `Sheet` without a last line on which the same was written: the
cursor is the sheet's, and the bytes of every visible pixel are `Geometry.encoded` of the colour
that the sheet has there. -/
theorem run_clear_eq_window (c : Console) (hcolumns : 1 ≤ c.geometry.columns)
    (hrows : 1 ≤ c.geometry.rows) (instructions : List Console.Instruction)
    (htext : ∀ i ∈ instructions, i.isText = true) :
    let d := c.clear.run instructions
    let s := (Sheet.blank c.geometry c.ink c.paper).run instructions
    d.geometry = c.geometry ∧ d.cursor = s.cursor ∧
      ∀ x y, x < c.geometry.width → y < c.geometry.height →
        d.canvas.pixelAt x y = c.geometry.encoded (s.color x y) := by
  intro d s
  have hshows : Shows c.geometry s d := (Shows.clear c hcolumns hrows).run instructions htext
  refine ⟨hshows.geometry_eq, ?_, fun x y hx hy => ?_⟩
  · show (d.column, d.line) = (s.column, s.line - s.top)
    rw [hshows.column_eq, hshows.line_eq]
  · rw [← hshows.geometry_eq] at hx hy ⊢
    rw [hshows.pixels_eq x y hx hy, Geometry.pixel_eq_encoded]

/-- A console with one character cell, and one column and one row of pixels more. -/
def oneCell : Console where
  geometry := {
    width := 9
    height := 17
    pitch := 20
    depth := .bits16
    layout := ⟨⟨11, 5⟩, ⟨5, 6⟩, ⟨0, 5⟩, ⟨0, 0⟩⟩
    width_pos := by decide
    height_pos := by decide
    row_le_pitch := by decide
    size_lt := by decide
  }
  canvas := ⟨Bytes.filled 400 0xAA, by rw [Bytes.size_filled]; decide⟩

/-- Take `oneCell`, cleared, with green on red chosen on the way. Then, by `run_clear_eq_window`,
three lines pass through the one cell: the last one is seen, on the ground that it was reached with,
above a row of pixels that has kept the ground of the clear. The colours are seen as the two bytes
that five, six and five bits make of them. -/
theorem run_clear_eq_window_scrolled :
    let instructions : List Console.Instruction :=
      [.putChar 'A', .newline, .setColors .green .red, .putChar 'B', .putChar '\t', .putChar 'C']
    let d := oneCell.clear.run instructions
    d.cursor = (1, 0) ∧ d.canvas.pixelAt 2 0 = ⟨#[0xE0, 0x07]⟩ ∧
      d.canvas.pixelAt 8 0 = ⟨#[0x00, 0xF8]⟩ ∧ d.canvas.pixelAt 0 16 = ⟨#[0x00, 0x00]⟩ := by
  intro instructions d
  obtain ⟨-, hcursor, hpixels⟩ := run_clear_eq_window oneCell (by decide) (by decide) instructions
    (by decide)
  have hgreen : oneCell.geometry.encoded .green = ⟨#[0xE0, 0x07]⟩ := by decide +kernel
  have hred : oneCell.geometry.encoded .red = ⟨#[0x00, 0xF8]⟩ := by decide +kernel
  have hblack : oneCell.geometry.encoded .black = ⟨#[0x00, 0x00]⟩ := by decide +kernel
  exact ⟨hcursor, (hpixels 2 0 (by decide) (by decide)).trans hgreen,
    (hpixels 8 0 (by decide) (by decide)).trans hred,
    (hpixels 0 16 (by decide) (by decide)).trans hblack⟩

end EarlyBoot.Screen

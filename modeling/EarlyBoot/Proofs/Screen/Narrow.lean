import EarlyBoot.Proofs.Screen.Painting
import EarlyBoot.Screen.Page

/-!
# `EarlyBoot.Proofs.Screen.Narrow`: text on a screen without a cell

A screen that is narrower than a character has no column, one that is lower has no text
line, and neither has room for a cell. A character has no effect there, whatever it is.
A new line asks for a text line only, so it is not left out on a screen that is narrow
and tall: it moves the cursor down, and scrolls at the bottom. The page of a good start
holds three of them.

So text on such a screen comes to a number of new lines (`foldl_call_of_no_cell`), and
whether anything changes is a question about these.

Main statements:

* `bootReport_of_no_cell` : the page of a good start comes to three new lines;
* `newlines_of_one_row`, `le_line_newlines` : what new lines do on one text line, and on
  more than one;
* `narrow_unchanged_iff` : when text leaves the pixels and the cursor alone.
-/

set_option autoImplicit false

namespace EarlyBoot.Screen

namespace Canvas

variable {g : Geometry}

/-- With one text line there is none to move, so `shiftLines` changes no byte. -/
theorem shiftLines_of_one_row (canvas : Canvas g) (hrows : 0 < g.rows) (hone : g.rows = 1) :
    canvas.shiftLines hrows = canvas := by
  have hnone : (g.rows - 1) * g.lineBytes = 0 := by rw [hone, Nat.sub_self, Nat.zero_mul]
  apply eq_of_pixels
  apply Bytes.ext_getElem?
  intro i
  rw [getElem?_shiftLines, hnone, if_neg (Nat.not_lt_zero i)]

end Canvas

namespace Console

/-- A call that is about text. -/
inductive TextCall where
  | putChar (ch : Char)
  | write (text : String)
  | newline
  | status (status : Status) (text : String)
  /-- The page of a good start, as far as it is text. -/
  | bootReport (info : BootInfo)

def call (c : Console) : TextCall → Console
  | .putChar ch         => c.putChar ch
  | .write text         => c.write text
  | .newline            => c.newline
  | .status status text => c.status status text
  | .bootReport info    => c.bootReport info

/-- How many new lines a call asks for by itself, and not through a character. -/
def TextCall.feeds : TextCall → Nat
  | .newline      => 1
  | .bootReport _ => 3
  | .putChar _ | .write _ | .status _ _ => 0

def TextCall.feedsAll : List TextCall → Nat
  | []            => 0
  | call :: calls => call.feeds + feedsAll calls

/-- A number of new lines. -/
def newlines (c : Console) : Nat → Console
  | 0     => c
  | n + 1 => c.newline.newlines n

/-- New lines add up. -/
theorem newlines_add (c : Console) (m n : Nat) :
    (c.newlines m).newlines n = c.newlines (m + n) := by
  induction m generalizing c with
  | zero => rw [newlines, Nat.zero_add]
  | succ m ih => rw [newlines, ih, Nat.add_right_comm, newlines]

/-- New lines keep the shape of the screen. -/
@[simp]
theorem geometry_newlines (c : Console) (n : Nat) : (c.newlines n).geometry = c.geometry := by
  induction n generalizing c with
  | zero => rfl
  | succ n ih => rw [newlines, ih, geometry_newline]

/-! ### Text without a cell -/

/-- There is no room for a cell. -/
def NoCell (c : Console) : Prop := c.geometry.columns = 0 ∨ c.geometry.rows = 0

variable {c : Console}

/-- Without room for a cell a text has no effect. -/
theorem write_of_no_cell (h : c.NoCell) (text : String) : c.write text = c := by
  unfold write
  induction text.toList with
  | nil => rfl
  | cons ch chs ih => rw [List.foldl_cons, putChar_of_no_cell h, ih]

/-- Colours do not make room for a cell. -/
theorem NoCell.setColors (h : c.NoCell) (ink paper : Color) : (c.setColors ink paper).NoCell := h

/-- A new line does not make room for a cell. -/
theorem NoCell.newline (h : c.NoCell) : c.newline.NoCell := by
  rw [NoCell, geometry_newline]
  exact h

/-- New lines do not make room for a cell. -/
theorem NoCell.newlines (h : c.NoCell) (n : Nat) : (c.newlines n).NoCell := by
  rw [NoCell, geometry_newlines]
  exact h

/-- Without room for a cell a text in another colour has no effect. -/
theorem writeIn_of_no_cell (h : c.NoCell) (color : Color) (text : String) :
    c.writeIn color text = c := by
  rw [writeIn, write_of_no_cell (h.setColors color c.paper)]
  rfl

/-- Without room for a cell a status line has no effect; its colour is put back. -/
theorem status_of_no_cell (h : c.NoCell) (status : Status) (text : String) :
    c.status status text = c := by
  rw [Console.status, write_of_no_cell (h.setColors status.color c.paper)]
  rfl

/-- Without room for a cell the rows of a memory map only leave the colour of the last one. -/
theorem memoryMapRows_of_no_cell (h : c.NoCell) (ranges : List MemoryRange) :
    ∃ ink, c.memoryMapRows ranges = c.setColors ink c.paper := by
  induction ranges generalizing c with
  | nil => exact ⟨c.ink, rfl⟩
  | cons range ranges ih =>
      -- The row changes the ink, so the induction is over consoles that differ in it.
      obtain ⟨ink, hrest⟩ := ih (h.setColors (rowColor range.kind) c.paper)
      refine ⟨ink, ?_⟩
      rw [memoryMapRows, List.foldl_cons, write_of_no_cell (h.setColors _ c.paper)]
      exact hrest

/-- Without room for a cell the memory map has no effect; the colours of its rows are put back. -/
theorem memoryMap_of_no_cell (h : c.NoCell) (info : BootInfo) : c.memoryMap info = c := by
  unfold memoryMap
  cases info.memoryMap with
  | none => exact status_of_no_cell h .warn _
  | some map =>
      obtain ⟨ink, hrows⟩ := memoryMapRows_of_no_cell h map.entries
      dsimp only
      rw [status_of_no_cell h, write_of_no_cell h, hrows]
      exact write_of_no_cell (c := (c.setColors ink c.paper).setColors c.ink c.paper) h _

/-- Without room for a cell the page of a good start comes to its three calls of `newline`. -/
theorem bootReport_of_no_cell (h : c.NoCell) (info : BootInfo) :
    c.bootReport info = c.newlines 3 := by
  have hbanner : c.banner = c := by
    rw [banner, writeIn_of_no_cell h, write_of_no_cell h, status_of_no_cell h]
  have h₁ := h.newline
  have h₂ := h₁.newline
  have h₃ := h₂.newline
  unfold bootReport
  rw [hbanner, status_of_no_cell h, memoryMap_of_no_cell h₁, status_of_no_cell h₂,
    write_of_no_cell h₃, write_of_no_cell h₃, write_of_no_cell h₃]
  rfl

/-- Without room for a cell a call comes to the new lines that it asks for by itself. -/
theorem call_of_no_cell (h : c.NoCell) (call : TextCall) :
    c.call call = c.newlines call.feeds := by
  cases call with
  | putChar ch => exact putChar_of_no_cell h ch
  | write text => exact write_of_no_cell h text
  | newline => rfl
  | status status text => exact status_of_no_cell h status text
  | bootReport info => exact bootReport_of_no_cell h info

/-- Without room for a cell any calls come to the new lines that they ask for. The induction is on
the calls, with `call_of_no_cell` for each. -/
theorem foldl_call_of_no_cell (h : c.NoCell) (calls : List TextCall) :
    calls.foldl call c = c.newlines (TextCall.feedsAll calls) := by
  induction calls generalizing c with
  | nil => rfl
  | cons call calls ih =>
      rw [List.foldl_cons, call_of_no_cell h, ih (h.newlines call.feeds), newlines_add,
        TextCall.feedsAll]

/-! ### New lines -/

/-- Without a text line new lines have no effect. -/
theorem newlines_of_no_row (h : c.geometry.rows = 0) (n : Nat) : c.newlines n = c := by
  induction n with
  | zero => rfl
  | succ n ih => rw [newlines, newline_of_no_row h, ih]

/-- Take one text line, with the cursor at its start. Then a new line paints it in the background
colour, and does nothing else. -/
theorem newline_of_one_row (hrows : c.geometry.rows = 1) (hcursor : c.cursor = (0, 0)) :
    ∃ canvas, c.newline = { c with canvas } ∧
      Canvas.Paints (fun _ y => y < glyphHeight) (fun _ _ => c.paper) c.canvas canvas := by
  have hpos : 0 < c.geometry.rows := by omega
  obtain ⟨hcolumn, hline⟩ : c.column = 0 ∧ c.line = 0 := Prod.mk.inj hcursor
  refine ⟨c.canvas.scroll c.paper hpos, ?_, ?_⟩
  · rw [newline_of_le hpos (by omega), ← hcolumn]
  · have hpaint := Canvas.paints_fillRows c.canvas ((c.geometry.rows - 1) * glyphHeight)
      (c.geometry.rows * glyphHeight) c.paper
    rw [Canvas.scroll, Canvas.shiftLines_of_one_row _ _ hrows]
    refine hpaint.congr (fun x y _ _ => ?_) fun _ _ _ => rfl
    rw [hrows]
    omega

/-- Take one text line, with the cursor at its start. Then one or more new lines paint it in the
background colour, and do nothing else. -/
theorem newlines_of_one_row (hrows : c.geometry.rows = 1) (hcursor : c.cursor = (0, 0))
    (n : Nat) :
    ∃ canvas, c.newlines (n + 1) = { c with canvas } ∧
      Canvas.Paints (fun _ y => y < glyphHeight) (fun _ _ => c.paper) c.canvas canvas := by
  -- The first new line paints the text line, and the others paint it again.
  induction n generalizing c with
  | zero => exact newline_of_one_row hrows hcursor
  | succ n ih =>
      obtain ⟨canvas, hfirst, hpaint⟩ := newline_of_one_row hrows hcursor
      obtain ⟨last, hlast, hpaint'⟩ := ih (c := { c with canvas }) hrows hcursor
      refine ⟨last, ?_, (hpaint.trans hpaint').congr (fun _ _ _ _ => or_self_iff) fun _ _ _ => rfl⟩
      rw [newlines, hfirst, hlast]

/-- A new line does not go up. -/
theorem le_line_newline (c : Console) : c.line ≤ c.newline.line := by
  unfold newline
  split
  · split
    · exact Nat.le_succ c.line
    · exact Nat.le_refl c.line
  · exact Nat.le_refl c.line

/-- New lines do not go up. -/
theorem le_line_newlines (c : Console) (n : Nat) : c.line ≤ (c.newlines n).line := by
  induction n generalizing c with
  | zero => exact Nat.le_refl c.line
  | succ n ih => exact Nat.le_trans (le_line_newline c) (ih c.newline)

/-- Take more than one text line, with the cursor at the start. Then one or more new lines leave the
first line. -/
theorem line_newlines_pos (hrows : 1 < c.geometry.rows) (hcursor : c.cursor = (0, 0)) (n : Nat) :
    0 < (c.newlines (n + 1)).line := by
  obtain ⟨-, hline⟩ : c.column = 0 ∧ c.line = 0 := Prod.mk.inj hcursor
  have hfirst : c.newline.line = c.line + 1 := by rw [newline_of_lt (by omega)]
  have hrest := le_line_newlines c.newline n
  rw [newlines]
  omega

/-- The pixels of the first text line all have the colour of the background. -/
def TopIsBlank (c : Console) : Prop :=
  ∀ x y, x < c.geometry.width → y < glyphHeight →
    c.canvas.pixelAt x y = c.geometry.pixel c.paper

/-- Painting the one text line in the background colour changes nothing exactly if it is blank. -/
theorem eq_canvas_iff (hrows : c.geometry.rows = 1) {canvas : Canvas c.geometry}
    (hpaint : Canvas.Paints (fun _ y => y < glyphHeight) (fun _ _ => c.paper) c.canvas canvas) :
    canvas = c.canvas ↔ c.TopIsBlank := by
  have hlines := c.geometry.rows_mul_le
  rw [hrows, Nat.one_mul] at hlines
  rw [hpaint.eq_iff]
  constructor
  · intro h x y hx hy
    exact h x y hx (by omega) hy
  · intro h x y hx _ hy
    exact h x y hx hy

/-- Take a cursor at the start. Then one or more new lines leave the pixels and the cursor alone
exactly if there is no text line, or there is one and it is blank. -/
theorem newlines_unchanged_iff (hcursor : c.cursor = (0, 0)) (n : Nat) :
    (c.newlines (n + 1)).pixels = c.pixels ∧ (c.newlines (n + 1)).cursor = (0, 0) ↔
      c.geometry.rows = 0 ∨ c.geometry.rows = 1 ∧ c.TopIsBlank := by
  -- Without a text line nothing happens, on one it is painted, and on more the cursor moves.
  rcases Nat.lt_trichotomy c.geometry.rows 1 with hnone | hone | hmore
  · have hrows : c.geometry.rows = 0 := by omega
    rw [newlines_of_no_row hrows]
    exact ⟨fun _ => .inl hrows, fun _ => ⟨rfl, hcursor⟩⟩
  · obtain ⟨canvas, hlast, hpaint⟩ := newlines_of_one_row hone hcursor n
    rw [hlast]
    constructor
    · rintro ⟨hpixels, -⟩
      exact .inr ⟨hone, (eq_canvas_iff hone hpaint).mp (Canvas.eq_of_pixels hpixels)⟩
    · rintro (hnone | ⟨-, hblank⟩)
      · omega
      · rw [(eq_canvas_iff hone hpaint).mpr hblank]
        exact ⟨rfl, hcursor⟩
  · have hline := line_newlines_pos hmore hcursor n
    constructor
    · rintro ⟨-, hsame⟩
      have hzero : (c.newlines (n + 1)).line = 0 := congrArg Prod.snd hsame
      omega
    · rintro (hnone | ⟨hone, -⟩) <;> omega

/-- Take a cursor at the start. Then a new line has no effect exactly if there is no text line, or
there is one and it is blank. -/
theorem newline_eq_self_iff (hcursor : c.cursor = (0, 0)) :
    c.newline = c ↔ c.geometry.rows = 0 ∨ c.geometry.rows = 1 ∧ c.TopIsBlank := by
  constructor
  · intro hsame
    rw [← newlines_unchanged_iff hcursor 0, newlines, newlines, hsame]
    exact ⟨rfl, hcursor⟩
  · rintro (hnone | ⟨hone, hblank⟩)
    · exact newline_of_no_row hnone
    · obtain ⟨canvas, hfirst, hpaint⟩ := newline_of_one_row hone hcursor
      rw [hfirst, (eq_canvas_iff hone hpaint).mpr hblank]

/-- Take a screen without room for a cell and any calls about text. The pixels and the cursor stay
as they are exactly if no call asks for a new line, or the screen has no text line, or it has one
that is blank. Under the same condition `newline` does what a line feed does, which is nothing; on a
screen with a column they always agree. -/
theorem narrow_unchanged_iff {g : Geometry} {pixels : ByteArray}
    (hset : onPixels g pixels = .ok c) (hcell : g.columns = 0 ∨ g.rows = 0)
    (calls : List TextCall) :
    let blank := ∀ x y, x < g.width → y < glyphHeight →
      pixels.extract (g.offset x y) (g.offset x y + g.depth.bytes) = g.pixel .black
    ((calls.foldl call c).pixels = pixels ∧ (calls.foldl call c).cursor = (0, 0) ↔
      TextCall.feedsAll calls = 0 ∨ g.rows = 0 ∨ g.rows = 1 ∧ blank) ∧
    (c.putChar '\n' = c.newline ↔ g.rows = 0 ∨ g.rows = 1 ∧ blank) ∧
    ∀ d : Console, 0 < d.geometry.columns → d.putChar '\n' = d.newline := by
  intro blank
  unfold onPixels at hset
  split at hset
  · next hsize =>
      rw [Except.ok.injEq] at hset
      subst hset
      have hno : NoCell { geometry := g, canvas := ⟨pixels, hsize⟩ } := hcell
      refine ⟨?_, ?_, ?_⟩
      · -- Printing is ignored here, so the calls are as many line feeds as they hold.
        rw [foldl_call_of_no_cell hno]
        cases TextCall.feedsAll calls with
        | zero => exact ⟨fun _ => .inl rfl, fun _ => ⟨rfl, rfl⟩⟩
        | succ n =>
            have hlines := newlines_unchanged_iff
              (show cursor { geometry := g, canvas := ⟨pixels, hsize⟩ } = (0, 0) from rfl) n
            exact hlines.trans (or_iff_right (Nat.succ_ne_zero n)).symm
      · rw [putChar_of_no_cell hno, eq_comm]
        exact newline_eq_self_iff rfl
      · intro d hcolumns
        -- Where there is a column only a missing row makes a line feed be ignored, and then
        -- `newline` does nothing either.
        unfold putChar
        split
        · next hnone => rw [newline_of_no_row (by omega)]
        · rfl
  · cases hset

/-- Take a screen of seven by sixteen pixels that is not black. Then, by `narrow_unchanged_iff`, the
page of a good start changes it, and a new line does not do what a line feed does. -/
theorem narrow_unchanged_iff_one_row :
    let g : Geometry := ⟨7, 16, 14, .bits16, .bgrx, by decide, by decide, by decide, by decide⟩
    let pixels := Bytes.filled 224 0xAA
    let calls : List TextCall := [.bootReport .unknown]
    ∃ c, onPixels g pixels = .ok c ∧ g.columns = 0 ∧ g.rows = 1 ∧
      ¬ ((calls.foldl call c).pixels = pixels ∧ (calls.foldl call c).cursor = (0, 0)) ∧
      c.putChar '\n' ≠ c.newline := by
  intro g pixels calls
  have hsize : g.size ≤ pixels.size := by decide +kernel
  have hset : onPixels g pixels = .ok { geometry := g, canvas := ⟨pixels, hsize⟩ } := dif_pos hsize
  have hcolumns : g.columns = 0 := by decide
  have hrows : g.rows = 1 := by decide
  obtain ⟨hcalls, hfeed, -⟩ := narrow_unchanged_iff hset (.inl hcolumns) calls
  -- The first pixel is not black.
  have hblank : ¬ ∀ x y, x < g.width → y < glyphHeight →
      pixels.extract (g.offset x y) (g.offset x y + g.depth.bytes) = g.pixel .black := by
    intro hblank
    exact absurd (hblank 0 0 (by decide) (by decide)) (by decide +kernel)
  refine ⟨_, hset, hcolumns, hrows, ?_, ?_⟩
  · intro hsame
    rcases hcalls.mp hsame with hnone | hnone | ⟨-, hall⟩
    · exact absurd hnone (by decide)
    · omega
    · exact hblank hall
  · intro hsame
    rcases hfeed.mp hsame with hnone | ⟨-, hall⟩
    · omega
    · exact hblank hall

/-- Take a screen of seven by thirty-two pixels, which has no room for a cell. Then `newline` moves
the cursor to the second line, and a line feed leaves it where it is. -/
theorem newline_without_column :
    ∃ c, onPixels ⟨7, 32, 28, .bits32, .bgrx, by decide, by decide, by decide, by decide⟩
        (Bytes.filled 896 0xAA) = .ok c ∧
      c.geometry.columns = 0 ∧ c.cursor = (0, 0) ∧
      ([TextCall.newline].foldl call c).cursor = (0, 1) ∧
      ([TextCall.putChar '\n'].foldl call c).cursor = (0, 0) ∧ c.putChar '\n' ≠ c.newline := by
  refine ⟨_, dif_pos (by decide +kernel), ?_⟩
  refine ⟨by decide, rfl, by decide, by decide, ?_⟩
  intro hsame
  have hcursor := congrArg cursor hsame
  exact absurd hcursor (by decide)

end Console

end EarlyBoot.Screen

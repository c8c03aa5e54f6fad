import EarlyBoot.Proofs.Screen.Painting
import EarlyBoot.Proofs.Screen.Pages

/-!
# `EarlyBoot.Proofs.Screen.Agreement`: what is seen does not depend on hidden bytes

Two canvases agree if they have the same pixels; the bytes between their rows and behind
their screens may differ, and so may the memories that they came from. A painting says
nothing about what was there before, so it keeps an agreement, and one that covers the
screen establishes it. The scroll is the one step that reads the canvas. It moves the
bytes between rows too, but only to places between rows.

Two consoles agree if they differ in canvases that agree. Every instruction keeps this,
and a clear makes consoles agree whatever their canvases were.

Main statements:

* `Canvas.Agree.paints`, `Canvas.Agree.scroll` : the two kinds of step;
* `Agree.run` : a run keeps an agreement;
* `Agree.bootReport` : so does the page of a good start;
* `agree_clear`, `agree_panicPage` : a clear, and the page of a panic, establish it.
-/

set_option autoImplicit false

namespace EarlyBoot.Screen

namespace Canvas

variable {g : Geometry}

/-- The same pixels. -/
def Agree (a b : Canvas g) : Prop :=
  ∀ x y, x < g.width → y < g.height → a.pixelAt x y = b.pixelAt x y

/-- Take canvases that agree, and paint the same pixels of both in the same colours. Then they still
agree, whatever the painting is made of. -/
theorem Agree.paints {area : Nat → Nat → Prop} {color : Nat → Nat → Color} {a a' b b' : Canvas g}
    (h : Agree a b) (ha : Paints area color a a') (hb : Paints area color b b') : Agree a' b' := by
  intro x y hx hy
  by_cases hxy : area x y
  · rw [ha.painted x y hx hy hxy, hb.painted x y hx hy hxy]
  · rw [ha.kept x y hx hy hxy, hb.kept x y hx hy hxy]
    exact h x y hx hy

/-- A scroll keeps an agreement, since it takes each pixel from a pixel of the same canvas or paints
it. -/
theorem Agree.scroll {a b : Canvas g} (h : Agree a b) (paper : Color) (hrows : 0 < g.rows) :
    Agree (a.scroll paper hrows) (b.scroll paper hrows) := by
  intro x y hx hy
  have hlines := g.rows_mul_le
  have hsplit := g.rows_mul_eq hrows glyphHeight
  rw [pixelAt_scroll a paper hrows hx hy, pixelAt_scroll b paper hrows hx hy]
  split
  · exact h x (y + glyphHeight) hx (by omega)
  · split
    · rfl
    · exact h x y hx hy

/-- Painting the whole screen in one colour makes any two canvases agree. -/
theorem agree_fill (a b : Canvas g) (color : Color) : Agree (a.fill color) (b.fill color) := by
  intro x y hx hy
  rw [(paints_fill a color).painted x y hx hy trivial,
    (paints_fill b color).painted x y hx hy trivial]

end Canvas

namespace Console

/-- The same console, but for the canvas, which agrees. -/
def Agree (c d : Console) : Prop :=
  ∃ canvas : Canvas c.geometry, Canvas.Agree c.canvas canvas ∧ d = { c with canvas }

variable {c d : Console}

/-- Consoles that agree have the same shape of screen. -/
theorem Agree.geometry_eq (h : Agree c d) : d.geometry = c.geometry := by
  obtain ⟨canvas, -, rfl⟩ := h
  rfl

/-- Consoles that agree have the same colours in force. -/
theorem Agree.colors_eq (h : Agree c d) : d.colors = c.colors := by
  obtain ⟨canvas, -, rfl⟩ := h
  rfl

/-- A pixel of consoles that agree is the same bytes in both. -/
theorem Agree.extract_eq (h : Agree c d) {x y : Nat} (hx : x < c.geometry.width)
    (hy : y < c.geometry.height) {first last : Nat} (hfirst : first = c.geometry.offset x y)
    (hlast : last = c.geometry.offset x y + c.geometry.depth.bytes) :
    c.pixels.extract first last = d.pixels.extract first last := by
  obtain ⟨canvas, hcanvas, rfl⟩ := h
  subst hfirst hlast
  exact hcanvas x y hx hy

/-! ### Steps -/

/-- Choosing the same colours keeps an agreement. -/
theorem Agree.setColors (h : Agree c d) (ink paper : Color) :
    Agree (c.setColors ink paper) (d.setColors ink paper) := by
  obtain ⟨canvas, hcanvas, rfl⟩ := h
  exact ⟨canvas, hcanvas, rfl⟩

/-- A `newline` keeps an agreement: both cursors are on the same line, so both consoles scroll or
neither does. -/
theorem Agree.newline (h : Agree c d) : Agree c.newline d.newline := by
  obtain ⟨canvas, hcanvas, rfl⟩ := h
  -- Both consoles take the same branch, which only the shape and the cursor decide.
  rcases Nat.eq_zero_or_pos c.geometry.rows with hrows | hrows
  · rw [newline_of_no_row hrows, newline_of_no_row (c := { c with canvas }) hrows]
    exact ⟨canvas, hcanvas, rfl⟩
  · rcases Nat.lt_or_ge (c.line + 1) c.geometry.rows with hlt | hle
    · rw [newline_of_lt hlt, newline_of_lt (c := { c with canvas }) hlt]
      exact ⟨canvas, hcanvas, rfl⟩
    · rw [newline_of_le hrows hle, newline_of_le (c := { c with canvas }) hrows hle]
      exact ⟨canvas.scroll c.paper hrows, hcanvas.scroll c.paper hrows, rfl⟩

/-- A `tab` keeps an agreement. -/
theorem Agree.tab (h : Agree c d) : Agree c.tab d.tab := by
  have hnewline := h.newline
  obtain ⟨canvas, hcanvas, rfl⟩ := h
  unfold Console.tab
  dsimp only
  split
  · exact hnewline
  · exact ⟨canvas, hcanvas, rfl⟩

/-- Drawing the same character at the cursor keeps an agreement. -/
theorem Agree.printHere (h : Agree c d) (ch : Char) : Agree (c.printHere ch) (d.printHere ch) := by
  obtain ⟨canvas, hcanvas, rfl⟩ := h
  have hpaint (a : Canvas c.geometry) :=
    Canvas.paints_drawGlyph a ch c.column c.line c.ink c.paper
  exact ⟨_, hcanvas.paints (hpaint c.canvas) (hpaint canvas), rfl⟩

/-- Drawing the same character, on a new line where that is needed, keeps an agreement. -/
theorem Agree.print (h : Agree c d) (ch : Char) : Agree (c.print ch) (d.print ch) := by
  have hnewline := h.newline.printHere ch
  have hhere := h.printHere ch
  obtain ⟨canvas, -, rfl⟩ := h
  unfold Console.print
  dsimp only
  split
  · exact hnewline
  · exact hhere

/-- Writing the same character keeps an agreement. -/
theorem Agree.putChar (h : Agree c d) (ch : Char) : Agree (c.putChar ch) (d.putChar ch) := by
  have hnewline := h.newline
  have htab := h.tab
  have hprint := h.print
  obtain ⟨canvas, hcanvas, rfl⟩ := h
  -- The two consoles differ in the canvas only, so they branch alike.
  by_cases hcell : c.geometry.columns = 0 ∨ c.geometry.rows = 0
  · rw [putChar_of_no_cell hcell, putChar_of_no_cell (c := { c with canvas }) hcell]
    exact ⟨canvas, hcanvas, rfl⟩
  · unfold Console.putChar
    rw [if_neg hcell, if_neg hcell]
    split
    · exact hnewline
    · exact ⟨canvas, hcanvas, rfl⟩
    · exact htab
    · exact hprint _

/-- Writing the same text keeps an agreement, character by character. -/
theorem Agree.write (h : Agree c d) (text : String) : Agree (c.write text) (d.write text) := by
  unfold Console.write
  -- Both consoles write the same characters, and each of them keeps the agreement.
  induction text.toList generalizing c d with
  | nil => exact h
  | cons ch chs ih => exact ih (h.putChar ch)

/-- The same status line keeps an agreement. -/
theorem Agree.status (h : Agree c d) (status : Status) (text : String) :
    Agree (c.status status text) (d.status status text) := by
  have htext (ink : Color) := (h.setColors status.color ink).write (status.label ++ text)
  obtain ⟨canvas, -, rfl⟩ := h
  exact (htext c.paper).setColors c.ink c.paper

/-- Painting the whole screen in the same colour keeps an agreement. -/
theorem Agree.fill (h : Agree c d) (color : Color) : Agree (c.fill color) (d.fill color) := by
  obtain ⟨canvas, -, rfl⟩ := h
  exact ⟨canvas.fill color, Canvas.agree_fill _ _ color, rfl⟩

/-- Painting the same pixel keeps an agreement. -/
theorem Agree.putPixel (h : Agree c d) (x y : Nat) (color : Color) :
    Agree (c.putPixel x y color) (d.putPixel x y color) := by
  obtain ⟨canvas, hcanvas, rfl⟩ := h
  have hpaint (a : Canvas c.geometry) := Canvas.paints_putPixel a x y color
  exact ⟨_, hcanvas.paints (hpaint c.canvas) (hpaint canvas), rfl⟩

/-- Take consoles of one shape with the same colours in force. Then after a `clear` they agree,
whatever was on their screens before. -/
theorem agree_clear (hgeometry : d.geometry = c.geometry) (hcolors : d.colors = c.colors) :
    Agree c.clear d.clear := by
  obtain ⟨g, canvas, column, line, ink, paper⟩ := c
  obtain ⟨g', canvas', column', line', ink', paper'⟩ := d
  obtain rfl : g' = g := hgeometry
  rw [colors, colors, Prod.mk.injEq] at hcolors
  obtain ⟨rfl, rfl⟩ : ink' = ink ∧ paper' = paper := hcolors
  exact ⟨canvas'.fill paper', Canvas.agree_fill canvas canvas' paper', rfl⟩

/-! ### Runs -/

/-- One step keeps an agreement: every instruction does the same to both consoles. -/
theorem Agree.follow (h : Agree c d) (instruction : Instruction) :
    Agree (c.follow instruction) (d.follow instruction) := by
  cases instruction with
  | fill color => exact h.fill color
  | clear => exact agree_clear h.geometry_eq h.colors_eq
  | putPixel x y color => exact h.putPixel x y color
  | putChar ch => exact h.putChar ch
  | write text => exact h.write text
  | newline => exact h.newline
  | setColors ink paper => exact h.setColors ink paper
  | status status text => exact h.status status text

/-- A run keeps an agreement, by `Agree.follow` at each instruction. -/
theorem Agree.run (h : Agree c d) (instructions : List Instruction) :
    Agree (c.run instructions) (d.run instructions) := by
  -- What one instruction leaves is what the others start with.
  induction instructions generalizing c d with
  | nil => exact h
  | cons i is ih => exact ih (h.follow i)

/-- The page of a good start keeps an agreement, since it is a run. -/
theorem Agree.bootReport (h : Agree c d) (info : BootInfo) :
    Agree (c.bootReport info) (d.bootReport info) := by
  have hink : d.ink = c.ink := congrArg Prod.fst h.colors_eq
  have hpaper : d.paper = c.paper := congrArg Prod.snd h.colors_eq
  rw [bootReport_eq_run, bootReport_eq_run, hink, hpaper]
  exact h.run _

/-- Take consoles of one shape. Then after the page of a panic they agree, whatever was on their
screens, since it starts with colours of its own and a `clear`. -/
theorem agree_panicPage (hgeometry : d.geometry = c.geometry) (message : String)
    (location : Option Location) :
    Agree (c.panicPage message location) (d.panicPage message location) := by
  have hclear : Agree (c.setColors .white .red).clear (d.setColors .white .red).clear :=
    agree_clear hgeometry rfl
  exact hclear.write (panicText message location)

end Console

end EarlyBoot.Screen

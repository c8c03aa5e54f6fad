import EarlyBoot.Proofs.Screen.Painting
import EarlyBoot.Screen.Console

/-!
# `EarlyBoot.Proofs.Screen.Filled`: filling rows is painting their pixels

Rows are filled a row at a time. The same can be said pixel by pixel, in any order:
pixels share no byte, so what a pixel holds in the end does not depend on the pixels
painted before and after it. And it can be said as a walk over the memory, which is
cut into stretches of one pitch, the first of them skipped and the last ones left out,
and each of the others cut into pixels. All three paint the same area in the same
colour, and that leaves only one canvas they can end in.

Main statements:

* `paints_putPixels` : painting places paints these pixels and no others;
* `walk_eq_putPixels` : the walk over the memory comes to painting places;
* `Canvas.fillRows_eq_putPixels`, `Console.fill_eq_putPixels` : filling rows, walking over
  them and painting their pixels in any order are the same.
-/

set_option autoImplicit false

namespace EarlyBoot.Screen

/-- The pixels of the rows from `first` up to `last`, as far as they are on the screen,
are the places of a list, in any order and any number of times. -/
def Geometry.Lists (g : Geometry) (first last : Nat) (places : List (Nat × Nat)) : Prop :=
  ∀ x y, (x, y) ∈ places ↔ x < g.width ∧ first ≤ y ∧ y < min last g.height

namespace Canvas

variable {g : Geometry}

/-- Paints the pixels at the places of a list, one after the other. -/
def putPixels (canvas : Canvas g) (color : Color) (places : List (Nat × Nat)) : Canvas g :=
  places.foldl (fun canvas place => canvas.putPixel place.1 place.2 color) canvas

/-- Painting the places of a list paints these pixels and no others. The induction is on the
places. -/
theorem paints_putPixels (canvas : Canvas g) (color : Color) (places : List (Nat × Nat)) :
    Paints (fun x y => (x, y) ∈ places) (fun _ _ => color) canvas
      (canvas.putPixels color places) := by
  induction places generalizing canvas with
  | nil =>
      refine (Paints.refl _ canvas).congr (fun x y _ _ => ?_) fun _ _ _ => rfl
      exact (iff_false_intro List.not_mem_nil).symm
  | cons place places ih =>
      have hfirst := paints_putPixel canvas place.1 place.2 color
      refine (hfirst.trans (ih _)).congr (fun x y _ _ => ?_) fun _ _ _ => rfl
      rw [List.mem_cons, Prod.ext_iff]

/-- Take places that list the pixels of some rows, in any order and any number of times. Then
`fillRows` is painting these places. -/
theorem fillRows_eq_putPixels (canvas : Canvas g) {first last : Nat} (color : Color)
    {places : List (Nat × Nat)} (h : g.Lists first last places) :
    canvas.fillRows first last color = canvas.putPixels color places := by
  have hrows := paints_fillRows canvas first last color
  refine hrows.unique ((paints_putPixels canvas color places).congr ?_ fun _ _ _ => rfl)
  intro x y hx hy
  rw [h x y]
  omega

/-! ### The walk over the memory -/

/-- Where stretches of `width` bytes start in `size` bytes; the last stretch may be
shorter than the others. -/
def starts (width size : Nat) : List Nat :=
  (List.range ((size + width - 1) / width)).map (· * width)

/-- Where stretches of `width` bytes start in `size` bytes, without a shorter one at the
end. -/
def wholeStarts (width size : Nat) : List Nat :=
  (List.range (size / width)).map (· * width)

/-- Overwrites each pixel of the row that starts at byte `start`. -/
def walkRow (g : Geometry) (color : Color) (pixels : ByteArray) (start : Nat) : ByteArray :=
  (wholeStarts g.depth.bytes g.rowBytes).foldl
    (fun pixels i => Bytes.splice pixels (start + i) (g.pixel color)) pixels

/-- Overwrites the pixels of rows: of all stretches of one pitch that the memory is made
of, those up to row `last` and to the height of the screen, without those before `first`. -/
def walk (canvas : Canvas g) (first last : Nat) (color : Color) : ByteArray :=
  (((starts g.pitch canvas.pixels.size).take (min last g.height)).drop first).foldl
    (walkRow g color) canvas.pixels

/-- The rows that are walked over are those of the screen, whatever is behind it. -/
theorem drop_take_starts (canvas : Canvas g) (first last : Nat) :
    ((starts g.pitch canvas.pixels.size).take (min last g.height)).drop first =
      (List.range' first (min last g.height - first)).map (· * g.pitch) := by
  have hpitch := g.pitch_pos
  -- The memory holds the screen, so it has as many stretches as the screen has rows.
  have hheight : g.height ≤ (canvas.pixels.size + g.pitch - 1) / g.pitch := by
    rw [Nat.le_div_iff_mul_le hpitch, Nat.mul_comm]
    have hle : g.pitch * g.height ≤ canvas.pixels.size := canvas.size_le
    omega
  rw [starts, ← List.map_take, ← List.map_drop, List.take_range, List.range_eq_range',
    List.drop_range']
  congr 2
  · omega
  · omega

/-- A pixel on the screen is painted by overwriting the bytes at its offset. -/
theorem pixels_putPixel (canvas : Canvas g) {x y : Nat} (color : Color) (hx : x < g.width)
    (hy : y < g.height) :
    (canvas.putPixel x y color).pixels =
      Bytes.splice canvas.pixels (g.offset x y) (g.pixel color) := by
  rw [putPixel, dif_pos ⟨hx, hy⟩]
  rfl

/-- Overwriting the bytes of pixels of one row is painting these pixels, one after the other. -/
theorem foldl_splice_eq_putPixels (canvas : Canvas g) {y : Nat} (color : Color)
    (hy : y < g.height) {columns : List Nat} (h : ∀ x ∈ columns, x < g.width) :
    columns.foldl (fun pixels x =>
        Bytes.splice pixels (y * g.pitch + x * g.depth.bytes) (g.pixel color)) canvas.pixels =
      (canvas.putPixels color (columns.map (·, y))).pixels := by
  induction columns generalizing canvas with
  | nil => rfl
  | cons x columns ih =>
      rw [List.foldl_cons, ← Geometry.offset,
        ← pixels_putPixel canvas color (h x List.mem_cons_self) hy,
        ih _ fun x' hx' => h x' (List.mem_cons_of_mem x hx'), List.map_cons, putPixels, putPixels,
        List.foldl_cons]

/-- Walking over a row of the screen paints its pixels from left to right, and nothing of its
padding. -/
theorem walkRow_eq_putPixels (canvas : Canvas g) {y : Nat} (color : Color) (hy : y < g.height) :
    walkRow g color canvas.pixels (y * g.pitch) =
      (canvas.putPixels color ((List.range g.width).map (·, y))).pixels := by
  have hcount : g.rowBytes / g.depth.bytes = g.width :=
    Nat.mul_div_cancel g.width g.depth.bytes_pos
  rw [walkRow, wholeStarts, hcount, List.foldl_map]
  exact foldl_splice_eq_putPixels canvas color hy fun x hx => List.mem_range.mp hx

/-- Walking over rows of the screen paints their pixels, row by row. -/
theorem foldl_walkRow_eq_putPixels (canvas : Canvas g) (color : Color) {rows : List Nat}
    (h : ∀ y ∈ rows, y < g.height) :
    (rows.map (· * g.pitch)).foldl (walkRow g color) canvas.pixels =
      (canvas.putPixels color (rows.flatMap fun y => (List.range g.width).map (·, y))).pixels := by
  induction rows generalizing canvas with
  | nil => rfl
  | cons y rows ih =>
      rw [List.map_cons, List.foldl_cons,
        walkRow_eq_putPixels canvas color (h y List.mem_cons_self),
        ih _ fun y' hy' => h y' (List.mem_cons_of_mem y hy'), List.flatMap_cons, putPixels,
        putPixels, putPixels, List.foldl_append]

/-- The walk over the memory in chunks comes to painting the pixels of its rows, row by row and from
left to right. -/
theorem walk_eq_putPixels (canvas : Canvas g) (first last : Nat) (color : Color) :
    ∃ places, g.Lists first last places ∧
      canvas.walk first last color = (canvas.putPixels color places).pixels := by
  -- The chunks are walked from the top row to the last, each from left to right.
  refine ⟨(List.range' first (min last g.height - first)).flatMap fun y =>
    (List.range g.width).map (·, y), ?_, ?_⟩
  · intro x y
    simp only [List.mem_flatMap, List.mem_map, List.mem_range'_1, List.mem_range, Prod.mk.injEq]
    constructor
    · rintro ⟨y', hy', x', hx', rfl, rfl⟩
      omega
    · rintro ⟨hx, hfirst, hlast⟩
      exact ⟨y, by omega, x, hx, rfl, rfl⟩
  · rw [walk, drop_take_starts]
    apply foldl_walkRow_eq_putPixels
    intro y hy
    have hrange := List.mem_range'_1.mp hy
    omega

end Canvas

namespace Console

/-- Paints the pixels at the places of a list, one after the other. -/
def putPixels (c : Console) (color : Color) (places : List (Nat × Nat)) : Console :=
  places.foldl (fun c place => c.putPixel place.1 place.2 color) c

/-- Painting places changes the canvas of a console and nothing else. -/
theorem putPixels_eq (c : Console) (color : Color) (places : List (Nat × Nat)) :
    c.putPixels color places = { c with canvas := c.canvas.putPixels color places } := by
  induction places generalizing c with
  | nil => rfl
  | cons place places ih => exact ih (c.putPixel place.1 place.2 color)

/-- Painting the whole screen is painting all of its pixels with `putPixel`, in any order and any
number of times; painting rows is painting theirs, for any range of rows. What the console is
besides its pixels stays as it is, and a walk over the memory in chunks leaves the same bytes. -/
theorem fill_eq_putPixels (c : Console) (color : Color) :
    (∀ places, (∀ x y, (x, y) ∈ places ↔ x < c.geometry.width ∧ y < c.geometry.height) →
      c.fill color = c.putPixels color places) ∧
    (∀ first last places, c.geometry.Lists first last places →
      { c with canvas := c.canvas.fillRows first last color } = c.putPixels color places) ∧
    ∀ first last,
      c.canvas.walk first last color = (c.canvas.fillRows first last color).pixels := by
  refine ⟨fun places h => ?_, fun first last places h => ?_, fun first last => ?_⟩
  · have hrows : c.geometry.Lists 0 c.geometry.height places := by
      intro x y
      rw [h x y]
      omega
    rw [putPixels_eq, fill, Canvas.fill, c.canvas.fillRows_eq_putPixels color hrows]
  · rw [putPixels_eq, c.canvas.fillRows_eq_putPixels color h]
  · -- The walk lists the pixels of its rows in some order, and any order will do.
    obtain ⟨places, h, hwalk⟩ := c.canvas.walk_eq_putPixels first last color
    rw [hwalk, c.canvas.fillRows_eq_putPixels color h]

/-- Take a screen of two by three pixels, with a byte between rows and three behind the screen. Then
`fill_eq_putPixels` holds for a list that goes column by column from the right and paints one pixel
twice, and for rows that go on below the screen. -/
theorem fill_eq_putPixels_by_column :
    let g : Geometry := ⟨2, 3, 5, .bits16, .bgrx, by decide, by decide, by decide, by decide⟩
    let places := [(1, 0), (1, 1), (1, 2), (0, 2), (0, 1), (1, 1), (0, 0)]
    ∃ c, onPixels g (Bytes.filled 18 0xAA) = .ok c ∧
      (∀ x y, (x, y) ∈ places ↔ x < g.width ∧ y < g.height) ∧
      c.fill .white = c.putPixels .white places ∧
      g.Lists 1 7 [(0, 2), (1, 1), (1, 2), (0, 1)] ∧
      { c with canvas := c.canvas.fillRows 1 7 .cyan } =
        c.putPixels .cyan [(0, 2), (1, 1), (1, 2), (0, 1)] := by
  intro g places
  have hwidth : g.width = 2 := rfl
  have hheight : g.height = 3 := rfl
  have hall : ∀ x y, (x, y) ∈ places ↔ x < g.width ∧ y < g.height := by
    intro x y
    simp only [places, List.mem_cons, Prod.mk.injEq, List.not_mem_nil, or_false]
    omega
  have hrows : g.Lists 1 7 [(0, 2), (1, 1), (1, 2), (0, 1)] := by
    intro x y
    simp only [List.mem_cons, Prod.mk.injEq, List.not_mem_nil, or_false]
    omega
  refine ⟨_, dif_pos (by decide), hall, ?_, hrows, ?_⟩
  · exact (fill_eq_putPixels _ .white).1 places hall
  · exact (fill_eq_putPixels _ .cyan).2.1 1 7 _ hrows

end Console

end EarlyBoot.Screen

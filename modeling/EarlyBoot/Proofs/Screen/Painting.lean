import EarlyBoot.Proofs.Bytes.Stretch
import EarlyBoot.Screen.Canvas

/-!
# `EarlyBoot.Proofs.Screen.Painting`: which pixels an operation paints

Every operation on a canvas but the scroll paints the pixels of an area, each in
the colour of its place, and leaves all other bytes alone: those of the other
pixels, those between two rows, and those behind the screen. `Paints` says this
of the canvas before and the one after. Painting several areas one after the
other, in colours that agree, is painting all of them, so the loops over rows and
over the pixels of a character need no invariant of their own.

Main statements:

* `offset_disjoint` : two pixels share no byte;
* `pixel_eq_encoded` : a console paints the bytes of the encoded colour;
* `Paints.fold` : a loop of paintings paints what its steps do;
* `Paints.unique` : what is painted says what the canvas is afterwards;
* `paints_putPixel`, `paints_fillRows`, `paints_drawGlyph` : what is painted;
* `getElem?_shiftLines`, `pixelAt_shiftLines`, `pixelAt_scroll` : the bytes and the pixels
  after a scroll.
-/

set_option autoImplicit false

namespace EarlyBoot.Screen

/-! ### Where the pixels are -/

namespace Geometry

/-- Rows are apart: a row has a pixel and the pitch has room for it. -/
theorem pitch_pos (g : Geometry) : 0 < g.pitch :=
  Nat.lt_of_lt_of_le (Nat.mul_pos g.width_pos g.depth.bytes_pos) g.row_le_pitch

/-- A pixel ends before the next row starts. -/
theorem offset_add_le_row (g : Geometry) {x y y' : Nat} (hx : x < g.width) (hy : y < y') :
    g.offset x y + g.depth.bytes ≤ y' * g.pitch := by
  have hrow : g.rowBytes ≤ g.pitch := g.row_le_pitch
  have hcolumn := g.column_add_le hx
  have hrows := mul_add_le_mul_of_lt hy g.pitch
  simp only [offset]
  omega

/-- Two different pixels of the screen share no byte. -/
theorem offset_disjoint (g : Geometry) {x y x' y' : Nat} (hx : x < g.width) (hx' : x' < g.width)
    (hne : ¬ (x' = x ∧ y' = y)) :
    g.offset x y + g.depth.bytes ≤ g.offset x' y' ∨
      g.offset x' y' + g.depth.bytes ≤ g.offset x y := by
  -- In two rows the one pixel ends before the row of the other starts.
  rcases Nat.lt_trichotomy y y' with hlt | rfl | hgt
  · have hrow := g.offset_add_le_row hx hlt
    simp only [offset] at hrow ⊢
    omega
  · -- In one row the pixels follow each other.
    have hx : x ≠ x' := fun h => hne ⟨h.symm, rfl⟩
    rcases Nat.lt_or_gt_of_ne hx with hlt | hgt
    · have hnext := mul_add_le_mul_of_lt hlt g.depth.bytes
      simp only [offset]
      omega
    · have hnext := mul_add_le_mul_of_lt hgt g.depth.bytes
      simp only [offset]
      omega
  · have hrow := g.offset_add_le_row hx' hgt
    simp only [offset] at hrow ⊢
    omega

/-- What a colour looks like in memory: encoded in the layout of the screen, the lowest byte
first, as many bytes as a pixel takes. -/
def encoded (g : Geometry) (color : Color) : ByteArray :=
  (Bytes.le32 (g.layout.encode color.r color.g color.b)).extract 0 g.depth.bytes

/-- The bytes that a console paints a pixel with, `Geometry.pixel`, are those of the colour as
the layout of the screen encodes it. -/
theorem pixel_eq_encoded (g : Geometry) (color : Color) : g.pixel color = g.encoded color := rfl

/-- Byte `i` of the memory belongs to a pixel of the screen. -/
def Visible (g : Geometry) (i : Nat) : Prop :=
  ∃ x y, x < g.width ∧ y < g.height ∧ g.offset x y ≤ i ∧ i < g.offset x y + g.depth.bytes

end Geometry

namespace Canvas

variable {g : Geometry}

/-! ### Painting an area -/

/-- The pixels of an area are painted, each in the colour of its place, and all other
bytes are left alone. -/
structure Paints (area : Nat → Nat → Prop) (color : Nat → Nat → Color)
    (before after : Canvas g) : Prop where
  painted : ∀ x y, x < g.width → y < g.height → area x y →
    after.pixelAt x y = g.pixel (color x y)
  kept : ∀ x y, x < g.width → y < g.height → ¬ area x y →
    after.pixelAt x y = before.pixelAt x y
  padding : ∀ i, ¬ g.Visible i → after.pixels[i]? = before.pixels[i]?

/-- What paints nothing changes nothing. -/
theorem Paints.refl (color : Nat → Nat → Color) (canvas : Canvas g) :
    Paints (fun _ _ => False) color canvas canvas where
  painted _ _ _ _ h := h.elim
  kept _ _ _ _ _ := rfl
  padding _ _ := rfl

/-- One painting after another, in the same colours, paints both areas. -/
theorem Paints.trans {area area' : Nat → Nat → Prop} {color : Nat → Nat → Color}
    {c c' c'' : Canvas g} (h : Paints area color c c') (h' : Paints area' color c' c'') :
    Paints (fun x y => area x y ∨ area' x y) color c c'' where
  painted x y hx hy harea := by
    -- Where both paint, the second has the last word, in the same colour.
    by_cases hlast : area' x y
    · exact h'.painted x y hx hy hlast
    · rw [h'.kept x y hx hy hlast]
      exact h.painted x y hx hy (harea.resolve_right hlast)
  kept x y hx hy harea := by
    rw [not_or] at harea
    rw [h'.kept x y hx hy harea.2, h.kept x y hx hy harea.1]
  padding i hi := by rw [h'.padding i hi, h.padding i hi]

/-- Only the part of an area that is on the screen matters to `Paints`, and only its colours. -/
theorem Paints.congr {area area' : Nat → Nat → Prop} {color color' : Nat → Nat → Color}
    {c c' : Canvas g} (h : Paints area color c c')
    (harea : ∀ x y, x < g.width → y < g.height → (area x y ↔ area' x y))
    (hcolor : ∀ x y, area' x y → color x y = color' x y) : Paints area' color' c c' where
  painted x y hx hy hxy := by
    rw [h.painted x y hx hy ((harea x y hx hy).mpr hxy), hcolor x y hxy]
  kept x y hx hy hxy := h.kept x y hx hy fun hin => hxy ((harea x y hx hy).mp hin)
  padding := h.padding

/-- A loop of paintings in the same colours paints the areas of all its steps. The induction is on
the number of steps, with `Paints.trans` for one more. -/
theorem Paints.fold {n : Nat} {step : (i : Nat) → i < n → Canvas g → Canvas g}
    {area : Nat → Nat → Nat → Prop} {color : Nat → Nat → Color}
    (h : ∀ i hi c, Paints (area i) color c (step i hi c)) (canvas : Canvas g) :
    Paints (fun x y => ∃ i < n, area i x y) color canvas (Nat.fold n step canvas) := by
  induction n with
  | zero =>
      refine (Paints.refl color canvas).congr (fun x y _ _ => ?_) fun _ _ _ => rfl
      simp
  | succ n ih =>
      rw [Nat.fold_succ]
      -- The last step comes behind all others, which the hypothesis speaks of.
      refine ((ih fun i hi c => h i _ c).trans (h n _ _)).congr (fun x y _ _ => ?_) fun _ _ _ => rfl
      simp only [Nat.lt_succ_iff_lt_or_eq, or_and_right, exists_or, exists_eq_left]

/-! ### What a painting decides -/

/-- A canvas is its bytes; that they hold the screen is not a second datum. -/
theorem eq_of_pixels {a b : Canvas g} (h : a.pixels = b.pixels) : a = b := by
  cases a
  cases b
  subst h
  rfl

/-- A byte of `pixelAt` is the byte of the memory at the offset of the pixel. -/
theorem getElem?_pixelAt (canvas : Canvas g) {x y i : Nat} (hle : g.offset x y ≤ i)
    (hlt : i < g.offset x y + g.depth.bytes) :
    (canvas.pixelAt x y)[i - g.offset x y]? = canvas.pixels[i]? := by
  rw [pixelAt, Bytes.getElem?_extract, if_pos (by omega), Nat.add_sub_cancel' hle]

/-- A canvas is told by its pixels and by the bytes that belong to none. -/
theorem eq_of_pixelAt {a b : Canvas g}
    (hpixels : ∀ x y, x < g.width → y < g.height → a.pixelAt x y = b.pixelAt x y)
    (hhidden : ∀ i, ¬ g.Visible i → a.pixels[i]? = b.pixels[i]?) : a = b := by
  apply eq_of_pixels
  apply Bytes.ext_getElem?
  intro i
  by_cases hi : g.Visible i
  · obtain ⟨x, y, hx, hy, hle, hlt⟩ := hi
    rw [← getElem?_pixelAt a hle hlt, ← getElem?_pixelAt b hle hlt, hpixels x y hx hy]
  · exact hhidden i hi

/-- What is painted on a canvas, and in which colours, says what it is afterwards. So two ways of
painting the same area can be compared by what they paint. -/
theorem Paints.unique {area : Nat → Nat → Prop} {color : Nat → Nat → Color}
    {before after after' : Canvas g} (h : Paints area color before after)
    (h' : Paints area color before after') : after = after' := by
  refine eq_of_pixelAt (fun x y hx hy => ?_) fun i hi => ?_
  · by_cases hxy : area x y
    · rw [h.painted x y hx hy hxy, h'.painted x y hx hy hxy]
    · rw [h.kept x y hx hy hxy, h'.kept x y hx hy hxy]
  · rw [h.padding i hi, h'.padding i hi]

/-- Painting changes nothing exactly if all pixels of the area have their colours already. -/
theorem Paints.eq_iff {area : Nat → Nat → Prop} {color : Nat → Nat → Color}
    {before after : Canvas g} (h : Paints area color before after) :
    after = before ↔ ∀ x y, x < g.width → y < g.height → area x y →
      before.pixelAt x y = g.pixel (color x y) := by
  constructor
  · rintro rfl x y hx hy hxy
    exact h.painted x y hx hy hxy
  · intro hcolored
    -- A canvas on which nothing happens is painted in the colours that it has.
    exact h.unique ⟨hcolored, fun _ _ _ _ _ => rfl, fun _ _ => rfl⟩

/-! ### Pixels and rows -/

/-- Overwriting bytes outside a pixel leaves the pixel alone. -/
theorem pixelAt_write_of_disjoint (canvas : Canvas g) {offset : Nat} {bytes : ByteArray}
    (h : offset + bytes.size ≤ g.size) {x y : Nat}
    (hdisjoint : g.offset x y + g.depth.bytes ≤ offset ∨ offset + bytes.size ≤ g.offset x y) :
    (canvas.write offset bytes h).pixelAt x y = canvas.pixelAt x y :=
  Bytes.extract_splice_of_disjoint (Nat.le_trans h canvas.size_le) hdisjoint

/-- A byte outside of what is overwritten stays. -/
theorem getElem?_write_of_disjoint (canvas : Canvas g) {offset : Nat} {bytes : ByteArray}
    (h : offset + bytes.size ≤ g.size) {i : Nat} (hi : ¬ (offset ≤ i ∧ i < offset + bytes.size)) :
    (canvas.write offset bytes h).pixels[i]? = canvas.pixels[i]? := by
  rw [write, Bytes.getElem?_splice (Nat.le_trans h canvas.size_le), if_neg hi]

/-- Painting a pixel `Paints` that pixel, if it is on the screen, and nothing otherwise. -/
theorem paints_putPixel (canvas : Canvas g) (x y : Nat) (color : Color) :
    Paints (fun x' y' => x' = x ∧ y' = y) (fun _ _ => color) canvas
      (canvas.putPixel x y color) := by
  by_cases hon : x < g.width ∧ y < g.height
  · have hfits : g.offset x y + (g.pixel color).size ≤ g.size := by
      rw [g.size_pixel]
      exact g.offset_add_le hon.1 hon.2
    have hput : canvas.putPixel x y color = canvas.write (g.offset x y) (g.pixel color) hfits := by
      rw [putPixel, dif_pos hon]
    rw [hput]
    constructor
    · rintro x' y' - - ⟨rfl, rfl⟩
      have hsame := Bytes.extract_splice (Nat.le_trans hfits canvas.size_le)
        (Nat.le_of_eq (Nat.zero_add (g.pixel color).size))
      rw [Nat.zero_add, Nat.add_zero, ByteArray.extract_zero_size, g.size_pixel] at hsame
      exact hsame
    · -- Another pixel shares no byte with the one that is written.
      intro x' y' hx' hy' hne
      apply pixelAt_write_of_disjoint
      rw [g.size_pixel]
      exact (g.offset_disjoint hon.1 hx' hne).symm
    · intro i hi
      apply getElem?_write_of_disjoint
      rw [g.size_pixel]
      exact fun hin => hi ⟨x, y, hon.1, hon.2, hin.1, hin.2⟩
  · -- Beside the screen nothing is painted, and no pixel is meant.
    have hput : canvas.putPixel x y color = canvas := by rw [putPixel, dif_neg hon]
    rw [hput]
    refine (Paints.refl _ canvas).congr (fun x' y' hx' hy' => ?_) fun _ _ _ => rfl
    rw [false_iff]
    rintro ⟨rfl, rfl⟩
    exact hon ⟨hx', hy'⟩

/-- Overwriting a row with a plain one `Paints` the pixels of the row, and nothing of its
padding. -/
theorem paints_putRow (canvas : Canvas g) {y : Nat} (color : Color) (hy : y < g.height) :
    Paints (fun _ y' => y' = y) (fun _ _ => color) canvas
      (canvas.putRow y (plainRow g color) hy (size_plainRow g color)) := by
  have hsize := size_plainRow g color
  have hfits : y * g.pitch + (plainRow g color).size ≤ g.size := by
    rw [hsize]
    exact g.row_add_le hy
  have hput : canvas.putRow y (plainRow g color) hy hsize =
      canvas.write (y * g.pitch) (plainRow g color) hfits := rfl
  rw [hput]
  constructor
  · intro x y' hx _ hy'
    subst hy'
    have hin : x * g.depth.bytes + g.depth.bytes ≤ (plainRow g color).size := by
      rw [hsize]
      exact g.column_add_le hx
    have hsame := Bytes.extract_splice (Nat.le_trans hfits canvas.size_le) hin
    -- A plain row repeats one pixel, and this is repetition `x` of it.
    have hunit : (plainRow g color).extract (x * (g.pixel color).size)
        (x * (g.pixel color).size + (g.pixel color).size) = g.pixel color :=
      Bytes.extract_repeated hx
    rw [g.size_pixel] at hunit
    exact hsame.trans hunit
  · intro x y' hx _ hne
    apply pixelAt_write_of_disjoint
    rw [hsize]
    -- Pixels of the rows above end before the row, those of the rows below start behind it.
    rcases Nat.lt_or_gt_of_ne hne with hlt | hgt
    · exact .inl (g.offset_add_le_row hx hlt)
    · right
      have hrows := mul_add_le_mul_of_lt hgt g.pitch
      have hrow : g.rowBytes ≤ g.pitch := g.row_le_pitch
      simp only [Geometry.offset]
      omega
  · intro i hi
    apply getElem?_write_of_disjoint
    rw [hsize]
    rintro ⟨hle, hlt⟩
    -- A byte among those of the row belongs to the pixel that it is counted in.
    have hpos := g.depth.bytes_pos
    have hdiv := Nat.div_add_mod (i - y * g.pitch) g.depth.bytes
    have hmod := Nat.mod_lt (i - y * g.pitch) hpos
    have hx : (i - y * g.pitch) / g.depth.bytes < g.width := by
      rw [Nat.div_lt_iff_lt_mul hpos]
      simp only [Geometry.rowBytes] at hlt
      omega
    rw [Nat.mul_comm] at hdiv
    exact hi ⟨_, y, hx, hy, by simp only [Geometry.offset]; omega,
      by simp only [Geometry.offset]; omega⟩

/-! ### Areas -/

/-- Painting rows `Paints` their pixels, as far as they are on the screen. -/
theorem paints_fillRows (canvas : Canvas g) (first last : Nat) (color : Color) :
    Paints (fun _ y => first ≤ y ∧ y < last) (fun _ _ => color) canvas
      (canvas.fillRows first last color) := by
  -- Step `i` of the loop paints row `first + i` of the screen.
  have hrow : ∀ i, i < min last g.height - first → first + i < g.height := by
    intro i hi
    omega
  have hstep : ∀ i (hi : i < min last g.height - first) (c : Canvas g),
      Paints (fun _ y => y = first + i) (fun _ _ => color) c
        (c.putRow (first + i) (plainRow g color) (hrow i hi) (size_plainRow g color)) :=
    fun i hi c => paints_putRow c color (hrow i hi)
  refine (Paints.fold hstep canvas).congr (fun x y _ hy => ?_) fun _ _ _ => rfl
  constructor
  · rintro ⟨i, hi, rfl⟩
    omega
  · rintro ⟨hfirst, hlast⟩
    exact ⟨y - first, by omega, by omega⟩

/-- Painting the screen `Paints` all of its pixels. -/
theorem paints_fill (canvas : Canvas g) (color : Color) :
    Paints (fun _ _ => True) (fun _ _ => color) canvas (canvas.fill color) :=
  (paints_fillRows canvas 0 g.height color).congr
    (fun _ y _ hy => iff_of_true ⟨Nat.zero_le y, hy⟩ trivial) fun _ _ _ => rfl

/-- The colour of a pixel of a character cell. -/
def glyphColor (c : Char) (ink paper : Color) (x y : Nat) : Color :=
  if Font.isSet c (x % glyphWidth) (y % glyphHeight) then ink else paper

/-- Drawing a character `Paints` the pixels of its cell, each in the colour that its glyph gives
it. -/
theorem paints_drawGlyph (canvas : Canvas g) (c : Char) (column line : Nat) (ink paper : Color) :
    Paints (fun x y => x / glyphWidth = column ∧ y / glyphHeight = line)
      (glyphColor c ink paper) canvas (canvas.drawGlyph c column line ink paper) := by
  have hpixel (i j : Nat) (hi : i < glyphHeight) (hj : j < glyphWidth) (canvas : Canvas g) :
      Paints (fun x y => x = column * glyphWidth + j ∧ y = line * glyphHeight + i)
        (glyphColor c ink paper) canvas
        (canvas.putPixel (column * glyphWidth + j) (line * glyphHeight + i)
          (if Font.isSet c j i then ink else paper)) := by
    refine (paints_putPixel canvas _ _ _).congr (fun _ _ _ _ => Iff.rfl) ?_
    rintro x y ⟨rfl, rfl⟩
    rw [glyphColor, Nat.mul_add_mod', Nat.mul_add_mod', Nat.mod_eq_of_lt hj, Nat.mod_eq_of_lt hi]
  -- The pixels of a row are one loop, the rows of the cell another around it.
  have hrow (i : Nat) (hi : i < glyphHeight) (canvas : Canvas g) :=
    Paints.fold (fun j hj canvas => hpixel i j hi hj canvas) canvas
  refine (Paints.fold hrow canvas).congr (fun x y _ _ => ?_) fun _ _ _ => rfl
  simp only [glyphWidth, glyphHeight]
  -- A pixel is in the cell of its quotients, at the place of its remainders.
  constructor
  · rintro ⟨i, hi, j, hj, rfl, rfl⟩
    omega
  · rintro ⟨hx, hy⟩
    exact ⟨y % 16, by omega, x % 8, by omega, by omega, by omega⟩

/-! ### Scrolling -/

/-- The text lines but the first, and what they are moved over, lie inside the memory. -/
theorem shift_le (canvas : Canvas g) (h : 0 < g.rows) :
    g.lineBytes + (g.rows - 1) * g.lineBytes ≤ canvas.pixels.size := by
  have hlines := g.lines_le
  have hle := canvas.size_le
  have hsplit := g.rows_mul_eq h g.lineBytes
  omega

/-- The move of `shiftLines`, byte by byte: all text lines but the last take the bytes of the line
below, and the rest stays. -/
theorem getElem?_shiftLines (canvas : Canvas g) (h : 0 < g.rows) (i : Nat) :
    (canvas.shiftLines h).pixels[i]? =
      if i < (g.rows - 1) * g.lineBytes then canvas.pixels[g.lineBytes + i]?
      else canvas.pixels[i]? :=
  Bytes.getElem?_moveToFront (canvas.shift_le h) i

/-- The move of `shiftLines`, pixel by pixel: each text line but the last has the pixels of the line
below. -/
theorem pixelAt_shiftLines (canvas : Canvas g) (h : 0 < g.rows) {x y : Nat} (hx : x < g.width) :
    (canvas.shiftLines h).pixelAt x y =
      if y < (g.rows - 1) * glyphHeight then canvas.pixelAt x (y + glyphHeight)
      else canvas.pixelAt x y := by
  have hbytes := g.mul_lineBytes (g.rows - 1)
  split
  · rename_i hy
    -- The whole pixel is overwritten, with the one that is as many bytes behind.
    have hend := g.offset_add_le_row hx hy
    have hstart : g.lineBytes + g.offset x y = g.offset x (y + glyphHeight) := by
      rw [Geometry.offset, ← Nat.add_assoc, g.lineBytes_add, Geometry.offset]
    apply Bytes.extract_congr
    intro i hi
    rw [getElem?_shiftLines, if_pos (by omega), ← hstart, Nat.add_assoc]
  · rename_i hy
    -- The pixel starts behind all that is overwritten.
    have hrows : (g.rows - 1) * glyphHeight * g.pitch ≤ y * g.pitch :=
      Nat.mul_le_mul_right _ (Nat.not_lt.mp hy)
    apply Bytes.extract_congr
    intro i hi
    rw [getElem?_shiftLines, if_neg]
    simp only [Geometry.offset]
    omega

/-- After a scroll the last text line is blank, those above it have moved up, and what is below the
text lines stays. -/
theorem pixelAt_scroll (canvas : Canvas g) (paper : Color) (h : 0 < g.rows) {x y : Nat}
    (hx : x < g.width) (hy : y < g.height) :
    (canvas.scroll paper h).pixelAt x y =
      if y < (g.rows - 1) * glyphHeight then canvas.pixelAt x (y + glyphHeight)
      else if y < g.rows * glyphHeight then g.pixel paper
      else canvas.pixelAt x y := by
  have hfill := paints_fillRows (canvas.shiftLines h) ((g.rows - 1) * glyphHeight)
    (g.rows * glyphHeight) paper
  have hlast : (g.rows - 1) * glyphHeight ≤ g.rows * glyphHeight :=
    Nat.mul_le_mul_right _ (Nat.sub_le _ _)
  rw [scroll]
  -- A pixel is above the last text line, in it, or below all of them.
  split
  · rename_i habove
    rw [hfill.kept x y hx hy (by omega), pixelAt_shiftLines canvas h hx, if_pos habove]
  · rename_i habove
    split
    · exact hfill.painted x y hx hy ⟨Nat.not_lt.mp habove, ‹_›⟩
    · rw [hfill.kept x y hx hy (by omega), pixelAt_shiftLines canvas h hx, if_neg habove]

end Canvas

end EarlyBoot.Screen

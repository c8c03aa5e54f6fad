import EarlyBoot.Proofs.Bytes.Fields
import EarlyBoot.Proofs.Record.Accepted
import EarlyBoot.Screen.Geometry

/-!
# `EarlyBoot.Proofs.Screen.Slice`: which surfaces can be borrowed as one slice

The pixels of a surface are borrowed as one slice of bytes. A slice must not start at the
address zero, must not reach beyond the last address, and must not be longer than the
greatest signed word. Three checks stand between a hostile framebuffer tag and its
surface: the decoder asks for an address and for pixels, the geometry for rows that fit
and for a size that is a word, and the surface for an end that is one. That is all of
the rule but the last part, and that part does not follow: width, height, pitch and
address are independent, and the product of a pitch and a height just below `2 ^ 32` is
twice as large as a slice may be.

Main statements:

* `Geometry.ofMode_eq_ok`, `Surface.ofFramebuffer_eq_ok` : what is accepted, exactly;
* `Surface.isSlice_iff` : an accepted surface is a slice if it is short enough;
* `Surface.not_isSlice_vast` : one that is not.
-/

set_option autoImplicit false

namespace EarlyBoot.Screen

/-! ### What is accepted -/

/-- A mode has a geometry exactly if its checks pass, and that is the one with the numbers of the
mode. -/
theorem Geometry.ofMode_eq_ok {width height pitch : UInt32} {bits : UInt8} {layout : PixelLayout}
    {g : Geometry} :
    ofMode width height pitch bits layout = .ok g ↔
      Depth.ofBits? bits = some g.depth ∧ g.width = width.toNat ∧ g.height = height.toNat ∧
        g.pitch = pitch.toNat ∧ g.layout = layout := by
  unfold ofMode
  constructor
  · intro h
    split at h
    · cases h
    · rename_i depth hdepth
      repeat' split at h
      all_goals cases h
      exact ⟨hdepth, rfl, rfl, rfl, rfl⟩
  · rintro ⟨hdepth, hwidth, hheight, hpitch, hlayout⟩
    -- The checks are what the geometry itself carries.
    have hpixels : ¬ (width = 0 ∨ height = 0) := by
      rintro (rfl | rfl)
      · exact absurd hwidth (Nat.ne_of_gt g.width_pos)
      · exact absurd hheight (Nat.ne_of_gt g.height_pos)
    have hrow : width.toNat * g.depth.bytes ≤ pitch.toNat := by
      rw [← hwidth, ← hpitch]
      exact g.row_le_pitch
    have hsize : pitch.toNat * height.toNat < addressSpace := by
      rw [← hpitch, ← hheight]
      exact g.size_lt
    have hpitch' : pitch.toNat < addressSpace :=
      Nat.lt_trans pitch.toNat_lt_size (by decide)
    simp only [hdepth]
    rw [dif_neg hpixels, if_neg (by omega), dif_neg (by omega), dif_neg (by omega)]
    obtain ⟨_, _, _, _, _⟩ := g
    subst hwidth hheight hpitch hlayout
    rfl

/-- A framebuffer has a surface exactly if its mode has a geometry and ends inside the address
space; the surface has that geometry and the address of the framebuffer. -/
theorem Surface.ofFramebuffer_eq_ok {fb : Framebuffer} {surface : Surface} :
    ofFramebuffer fb = .ok surface ↔
      Geometry.ofFramebuffer fb = .ok surface.geometry ∧ surface.address = fb.address ∧
        fb.address.toNat + surface.geometry.size < addressSpace := by
  unfold ofFramebuffer
  cases hgeometry : Geometry.ofFramebuffer fb with
  | error error => simp
  | ok g =>
      dsimp only
      constructor
      · -- With a geometry only the end of the buffer can be out of reach.
        intro h
        split at h
        · rename_i hlt
          cases h
          exact ⟨rfl, rfl, hlt⟩
        · cases h
      · rintro ⟨hg, haddress, hlt⟩
        cases hg
        rw [if_pos hlt, ← haddress]

/-! ### What can be borrowed -/

/-- The pixels of a surface can be borrowed as one slice: it does not start at zero, its
rows fit, it ends in the address space, and it is no longer than the greatest signed word. -/
structure Surface.IsSlice (surface : Surface) : Prop where
  address_ne_zero : surface.address ≠ 0
  row_le_pitch : surface.geometry.width * surface.geometry.depth.bytes ≤ surface.geometry.pitch
  finish_le : surface.address.toNat + surface.geometry.pitch * surface.geometry.height ≤ 2 ^ 64 - 1
  size_le : surface.geometry.pitch * surface.geometry.height ≤ 2 ^ 63 - 1

namespace Surface

/-- A number of 32 bits times one of at most `2 ^ 31` is below `2 ^ 63`. -/
theorem mul_lt_of_le {m n : UInt32} (h : m.toNat ≤ 2 ^ 31) : m.toNat * n.toNat < 2 ^ 63 := by
  have hn : n.toNat ≤ 2 ^ 32 - 1 := Nat.le_sub_one_of_lt n.toNat_lt_size
  calc m.toNat * n.toNat ≤ 2 ^ 31 * (2 ^ 32 - 1) := Nat.mul_le_mul h hn
    _ < 2 ^ 63 := by decide

/-- Take a framebuffer that was decoded from a tag and has a surface. Then the address, the rows and
the end of the surface are those of a legal slice, and the surface is one exactly if its size is
below `2 ^ 63`. That is so if the pitch or the height is at most `2 ^ 31`, and in the upper half of
the address space; `ofFramebuffer` does not check it. -/
theorem isSlice_iff {tag : RawTag} {fb : Framebuffer} {surface : Surface}
    (hdecode : Framebuffer.decode tag = .ok fb) (hsurface : ofFramebuffer fb = .ok surface) :
    (surface.address ≠ 0 ∧
      surface.geometry.width * surface.geometry.depth.bytes ≤ surface.geometry.pitch ∧
      surface.address.toNat + surface.geometry.pitch * surface.geometry.height ≤ 2 ^ 64 - 1) ∧
    (surface.IsSlice ↔ fb.pitch.toNat * fb.height.toNat < 2 ^ 63) ∧
    (fb.pitch.toNat ≤ 2 ^ 31 ∨ fb.height.toNat ≤ 2 ^ 31 ∨ 2 ^ 63 ≤ fb.address.toNat →
      surface.IsSlice) := by
  obtain ⟨-, -, -, -, hfb⟩ := Framebuffer.checked_of_decode hdecode
  obtain ⟨hgeometry, haddress, hend⟩ := ofFramebuffer_eq_ok.mp hsurface
  obtain ⟨-, -, hheight, hpitch, -⟩ := Geometry.ofMode_eq_ok.mp hgeometry
  have hnonzero : surface.address ≠ 0 := haddress ▸ hfb
  have hrow := surface.geometry.row_le_pitch
  have hfinish : surface.address.toNat + surface.geometry.pitch * surface.geometry.height ≤
      2 ^ 64 - 1 := by
    rw [haddress]
    exact Nat.le_sub_one_of_lt hend
  have hsize : surface.geometry.pitch * surface.geometry.height =
      fb.pitch.toNat * fb.height.toNat := by rw [hpitch, hheight]
  -- Of the four conditions of a slice only the last is not checked when the surface is set up.
  have hslice : surface.IsSlice ↔ fb.pitch.toNat * fb.height.toNat < 2 ^ 63 := by
    constructor
    · intro h
      rw [← hsize]
      exact Nat.lt_of_le_of_lt h.size_le (by decide)
    · intro h
      exact ⟨hnonzero, hrow, hfinish, by rw [hsize]; exact Nat.le_sub_one_of_lt h⟩
  refine ⟨⟨hnonzero, hrow, hfinish⟩, hslice, ?_⟩
  rintro (hnarrow | hlow | hhigh)
  · exact hslice.mpr (mul_lt_of_le hnarrow)
  · refine hslice.mpr ?_
    rw [Nat.mul_comm]
    exact mul_lt_of_le hlow
  · -- In the upper half there is no room for more before the address space ends.
    rw [haddress, hsize] at hfinish
    exact hslice.mpr (by omega)

/-- A tag with a framebuffer of 640 by 480 pixels. -/
def plainTag : RawTag where
  position := ⟨16, ⟨.framebuffer, 0, 40⟩⟩
  bytes :=
    [3, 0, 0, 0, 40, 0, 0, 0, 0, 0, 0, 0xFD, 0, 0, 0, 0, 0x80, 0x02, 0, 0, 0xE0, 0x01, 0, 0,
      0x00, 0x0A, 0, 0, 32, 16, 8, 8, 8, 0, 8, 24, 8, 0, 0, 0].toByteArray
  size_bytes := by decide

def plainFramebuffer : Framebuffer where
  tag := plainTag
  address := 0xFD000000
  width := 640
  height := 480
  pitch := 2560
  depth := 32
  layout := { red := ⟨16, 8⟩, green := ⟨8, 8⟩, blue := ⟨0, 8⟩, reserved := ⟨24, 8⟩ }

/-- Take `plainFramebuffer`, which is decoded from `plainTag`. Then, by `isSlice_iff`, its surface
is a legal slice. -/
theorem isSlice_iff_plain :
    Framebuffer.decode plainTag = .ok plainFramebuffer ∧
      ∃ surface, ofFramebuffer plainFramebuffer = .ok surface ∧ surface.IsSlice := by
  have hdecode : Framebuffer.decode plainTag = .ok plainFramebuffer := rfl
  obtain ⟨surface, hsurface⟩ : ∃ surface, ofFramebuffer plainFramebuffer = .ok surface := ⟨_, rfl⟩
  obtain ⟨-, -, hslice⟩ := isSlice_iff hdecode hsurface
  exact ⟨hdecode, surface, hsurface, hslice (.inl (by decide))⟩

/-- A region with a framebuffer that is one pixel wide, as high as can be declared, and
whose rows are two gibibytes and a byte apart. -/
def vastRegion : Region where
  header := ⟨regionMagic, 64, 1, 0⟩
  bytes :=
    [0x4B, 0x4F, 0x42, 0x44, 64, 0, 0, 0, 1, 0, 0, 0, 0, 0, 0, 0,
      3, 0, 0, 0, 40, 0, 0, 0, 0x00, 0x10, 0, 0, 0, 0, 0, 0, 1, 0, 0, 0, 0xFF, 0xFF, 0xFF, 0xFF,
      0x01, 0x00, 0x00, 0x80, 16, 11, 5, 5, 6, 0, 5, 0, 0, 0, 0, 0,
      0, 0, 0, 0, 8, 0, 0, 0].toByteArray
  size_bytes := by decide
  minTotalSize_le := by decide

def vastTag : RawTag where
  position := ⟨16, ⟨.framebuffer, 0, 40⟩⟩
  bytes := vastRegion.bytes.extract 16 56
  size_bytes := by decide

def vastFramebuffer : Framebuffer where
  tag := vastTag
  address := 0x1000
  width := 1
  height := 0xFFFFFFFF
  pitch := 0x80000001
  depth := 16
  layout := { red := ⟨11, 5⟩, green := ⟨5, 6⟩, blue := ⟨0, 5⟩, reserved := ⟨0, 0⟩ }

/-- Take `vastFramebuffer`, decoded from a tag of a region that is accepted. Then all checks pass,
but the surface has `2 ^ 63 + 2 ^ 31 - 1` bytes, which is more than a slice may have. -/
theorem not_isSlice_vast :
    Region.read vastRegion.bytes .standard = .ok vastRegion ∧ vastTag ∈ vastRegion.tags ∧
      Framebuffer.decode vastTag = .ok vastFramebuffer ∧
        ∃ surface, ofFramebuffer vastFramebuffer = .ok surface ∧
          surface.geometry.pitch * surface.geometry.height = 2 ^ 63 + 2 ^ 31 - 1 ∧
            ¬ surface.IsSlice := by
  refine ⟨Region.read_eq_ok.mpr ⟨Header.read_eq_ok.mpr ⟨by decide, by decide⟩, by decide⟩,
    by decide, rfl, _, rfl, by decide, ?_⟩
  intro hslice
  exact absurd hslice.size_le (by decide)

end Surface

end EarlyBoot.Screen

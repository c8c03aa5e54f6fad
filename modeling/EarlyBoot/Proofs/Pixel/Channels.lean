import EarlyBoot.Pixel.Layout
import EarlyBoot.Proofs.Bytes.Fields

/-!
# `EarlyBoot.Proofs.Pixel.Channels`: the channels of a packed pixel

A colour is packed by scaling each intensity to the width of its channel, shifting it into
place and taking all three together. The bytes that describe a channel come from outside,
so that any shift and any size can occur. `encodeChecked` is the packing in which a shift by
a whole word or more, and a difference of bytes below zero, is a failure: it never fails.

What a channel adds to a pixel is said bit by bit (`testBit_encode`): a channel ends where
its intensity ends, so the bit at `i` of the pixel is the bit of the intensity that is as
far from its end as `i` is from the end of the channel. All else follows from this table. A
wide channel has places below the lowest bit of the intensity, which stay zero, and a narrow
one has none for the lowest bits. In both cases nothing falls outside the channel, so that
one that shares no bit with the others holds its scaled intensity as it was put in.

Main statements:

* `Channel.encodeChecked_eq` : no shift is out of range;
* `Channel.testBit_encode` : the bits that a channel adds to a pixel;
* `Channel.value_eq_scale`, `Channel.holds_of_value` : what is read back from a channel that
  keeps to itself;
* `PixelLayout.encode_keeps_channels` : packing keeps the channels apart.
-/

set_option autoImplicit false

namespace EarlyBoot

namespace Channel

/-- A channel is present exactly if it has from one to thirty-two bits and starts inside the
pixel. -/
theorem present_iff {channel : Channel} :
    channel.present = true ↔
      0 < channel.size.toNat ∧ channel.size.toNat ≤ 32 ∧ channel.shift.toNat < 32 := by
  simp [present, UInt8.lt_iff_toNat_lt, UInt8.le_iff_toNat_le, and_assoc]

/-- A channel fits exactly if it has some bits and all of them lie inside the pixel. -/
theorem fits_iff {channel : Channel} :
    channel.fits = true ↔
      0 < channel.size.toNat ∧ channel.shift.toNat + channel.size.toNat ≤ 32 := by
  simp [fits, UInt8.lt_iff_toNat_lt]

/-- The bits that a channel covers are those from its shift on, as many as its size says. -/
theorem covers_iff {channel : Channel} {i : Nat} :
    channel.covers i = true ↔
      channel.shift.toNat ≤ i ∧ i < channel.shift.toNat + channel.size.toNat := by
  simp [covers]

/-! ### Shifts in range -/

/-- A word shifted to the left, by less than its width. -/
def shiftLeft? (word : UInt32) (places : UInt8) : Option UInt32 :=
  if places < 32 then some (word <<< places.toUInt32) else none

/-- A word shifted to the right, by less than its width. -/
def shiftRight? (word : UInt32) (places : UInt8) : Option UInt32 :=
  if places < 32 then some (word >>> places.toUInt32) else none

/-- The difference of two bytes, the second of which is not the greater one. -/
def difference? (a b : UInt8) : Option UInt8 :=
  if b ≤ a then some (a - b) else none

/-- `encode`, with each shift and each difference in range. -/
def encodeChecked (channel : Channel) (intensity : UInt8) : Option UInt32 :=
  if channel.size = 0 ∨ 32 < channel.size ∨ 32 ≤ channel.shift then
    some 0
  else if 8 ≤ channel.size then do
    let places ← difference? channel.size 8
    let scaled ← shiftLeft? intensity.toUInt32 places
    shiftLeft? scaled channel.shift
  else do
    let places ← difference? 8 channel.size
    let scaled ← shiftRight? intensity.toUInt32 places
    shiftLeft? scaled channel.shift

/-- How far the intensity is shifted up for a channel of eight bits or more, as a number. -/
theorem toNat_size_sub {channel : Channel} (h : 8 ≤ channel.size) :
    (channel.size - 8).toNat = channel.size.toNat - 8 :=
  UInt8.toNat_sub_of_le _ _ h

/-- How far the intensity is shifted down for a channel of fewer than eight bits, as a number. -/
theorem toNat_sub_size {channel : Channel} (h : ¬ 8 ≤ channel.size) :
    (8 - channel.size).toNat = 8 - channel.size.toNat :=
  UInt8.toNat_sub_of_le _ _ (UInt8.le_of_lt (UInt8.not_le.mp h))

/-- A channel is not present exactly if one of the guards of `encodeChecked` refuses it. -/
theorem present_eq_false_iff {channel : Channel} :
    channel.present = false ↔ channel.size = 0 ∨ 32 < channel.size ∨ 32 ≤ channel.shift := by
  rw [← Bool.not_eq_true, present_iff, UInt8.lt_iff_toNat_lt, UInt8.le_iff_toNat_le,
    ← UInt8.toNat_inj]
  simp only [UInt8.reduceToNat]
  omega

/-- No shift is out of range and no difference is below zero: `encodeChecked`, which fails where one
would be, always returns what `encode` does. -/
theorem encodeChecked_eq (channel : Channel) (intensity : UInt8) :
    channel.encodeChecked intensity = some (channel.encode intensity) := by
  unfold encodeChecked encode
  cases hpresent : channel.present with
  | false => rw [if_pos (present_eq_false_iff.mp hpresent), if_neg Bool.false_ne_true]
  | true =>
      obtain ⟨-, hsize, hshift⟩ := present_iff.mp hpresent
      have hplace : channel.shift < 32 := UInt8.lt_iff_toNat_lt.mpr hshift
      have haccepted : ¬ (channel.size = 0 ∨ 32 < channel.size ∨ 32 ≤ channel.shift) := by
        rw [← present_eq_false_iff, hpresent]
        exact Bool.noConfusion
      rw [if_neg haccepted, if_pos rfl, scale]
      -- A wide channel shifts the intensity up, a narrow one down; both by less than 32.
      split
      · rename_i hwide
        have hplaces : channel.size - 8 < 32 := by
          rw [UInt8.lt_iff_toNat_lt, toNat_size_sub hwide]
          show channel.size.toNat - 8 < 32
          omega
        simp [difference?, hwide, shiftLeft?, hplaces, hplace]
      · rename_i hnarrow
        have hplaces : 8 - channel.size < 32 := by
          rw [UInt8.lt_iff_toNat_lt, toNat_sub_size hnarrow]
          show 8 - channel.size.toNat < 32
          omega
        have hle : channel.size ≤ 8 := UInt8.le_of_lt (UInt8.not_le.mp hnarrow)
        simp [difference?, hle, shiftLeft?, shiftRight?, hplaces, hplace]

/-! ### The bits of a channel -/

/-- An intensity has no bit from the eighth on. -/
theorem testBit_of_eight_le (intensity : UInt8) {i : Nat} (h : 8 ≤ i) :
    intensity.toNat.testBit i = false :=
  Nat.testBit_lt_two_pow
    (Nat.lt_of_lt_of_le intensity.toNat_lt (Nat.pow_le_pow_right (by decide) h))

/-- For a channel of eight bits or more `scale` shifts the intensity up, with zeros behind it. -/
theorem toNat_scale_of_le {channel : Channel} (hwide : 8 ≤ channel.size)
    (hsize : channel.size.toNat ≤ 32) (intensity : UInt8) :
    (channel.scale intensity).toNat = intensity.toNat <<< (channel.size.toNat - 8) := by
  have hplaces : channel.size.toNat - 8 < 32 := by omega
  have hfit : intensity.toNat <<< (channel.size.toNat - 8) < 2 ^ 32 := by
    have hle : 2 ^ (channel.size.toNat - 8) ≤ 2 ^ 24 :=
      Nat.pow_le_pow_right (by decide) (by omega)
    calc intensity.toNat <<< (channel.size.toNat - 8)
        = intensity.toNat * 2 ^ (channel.size.toNat - 8) := Nat.shiftLeft_eq _ _
      _ ≤ intensity.toNat * 2 ^ 24 := Nat.mul_le_mul_left _ hle
      _ < 2 ^ 8 * 2 ^ 24 := Nat.mul_lt_mul_of_pos_right intensity.toNat_lt (by decide)
      _ = 2 ^ 32 := by decide
  rw [scale, if_pos hwide, UInt32.toNat_shiftLeft, UInt8.toNat_toUInt32, UInt8.toNat_toUInt32,
    toNat_size_sub hwide, Nat.mod_eq_of_lt hplaces, Nat.mod_eq_of_lt hfit]

/-- For a narrower channel `scale` keeps the highest bits of the intensity. -/
theorem toNat_scale_of_lt {channel : Channel} (hnarrow : ¬ 8 ≤ channel.size) (intensity : UInt8) :
    (channel.scale intensity).toNat = intensity.toNat >>> (8 - channel.size.toNat) := by
  have hplaces : 8 - channel.size.toNat < 32 := by omega
  rw [scale, if_neg hnarrow, UInt32.toNat_shiftRight, UInt8.toNat_toUInt32, UInt8.toNat_toUInt32,
    toNat_sub_size hnarrow, Nat.mod_eq_of_lt hplaces]

/-- The bits of a scaled intensity are those of the intensity, aligned at the upper end of the
channel. -/
theorem testBit_scale {channel : Channel} (hsize : channel.size.toNat ≤ 32) (intensity : UInt8)
    (i : Nat) :
    (channel.scale intensity).toNat.testBit i =
      (decide (channel.size.toNat ≤ i + 8) &&
        intensity.toNat.testBit (i + 8 - channel.size.toNat)) := by
  by_cases hwide : 8 ≤ channel.size
  · have hle : 8 ≤ channel.size.toNat := UInt8.le_iff_toNat_le.mp hwide
    have hiff : i ≥ channel.size.toNat - 8 ↔ channel.size.toNat ≤ i + 8 := by omega
    have hplace : i - (channel.size.toNat - 8) = i + 8 - channel.size.toNat := by omega
    rw [toNat_scale_of_le hwide hsize, Nat.testBit_shiftLeft, hplace, decide_eq_decide.mpr hiff]
  · have hlt : channel.size.toNat < 8 := UInt8.lt_iff_toNat_lt.mp (UInt8.not_le.mp hwide)
    have hplace : 8 - channel.size.toNat + i = i + 8 - channel.size.toNat := by omega
    have hle : channel.size.toNat ≤ i + 8 := by omega
    rw [toNat_scale_of_lt hwide, Nat.testBit_shiftRight, hplace, decide_eq_true hle, Bool.true_and]

/-- The bits that a channel adds to a pixel: those of the intensity, which ends where the channel
does, if the channel is present and the bit is inside the pixel. -/
theorem testBit_encode (channel : Channel) (intensity : UInt8) (i : Nat) :
    (channel.encode intensity).toNat.testBit i =
      (channel.present && decide (i < 32) && decide (channel.shift.toNat ≤ i) &&
        decide (channel.shift.toNat + channel.size.toNat ≤ i + 8) &&
        intensity.toNat.testBit (i + 8 - (channel.shift.toNat + channel.size.toNat))) := by
  unfold encode
  cases hpresent : channel.present with
  | false => simp
  | true =>
      obtain ⟨-, hsize, hshift⟩ := present_iff.mp hpresent
      rw [if_pos rfl, UInt32.toNat_shiftLeft, UInt8.toNat_toUInt32, Nat.mod_eq_of_lt hshift,
        Nat.testBit_mod_two_pow, Nat.testBit_shiftLeft, testBit_scale hsize]
      by_cases hle : channel.shift.toNat ≤ i
      · have hiff : channel.size.toNat ≤ i - channel.shift.toNat + 8 ↔
            channel.shift.toNat + channel.size.toNat ≤ i + 8 := by omega
        have hplace : i - channel.shift.toNat + 8 - channel.size.toNat =
            i + 8 - (channel.shift.toNat + channel.size.toNat) := by omega
        simp [hle, hiff, hplace, Bool.and_assoc]
      · simp [hle]

/-- A channel sets only bits that it covers, inside the pixel, and only if it is present. -/
theorem covers_of_testBit_encode {channel : Channel} {intensity : UInt8} {i : Nat}
    (h : (channel.encode intensity).toNat.testBit i = true) :
    channel.present = true ∧ channel.covers i = true ∧ i < 32 := by
  rw [testBit_encode] at h
  simp only [Bool.and_eq_true, decide_eq_true_eq] at h
  obtain ⟨⟨⟨⟨hpresent, hword⟩, hle⟩, -⟩, hbit⟩ := h
  refine ⟨hpresent, covers_iff.mpr ⟨hle, Nat.lt_of_not_le fun hend => ?_⟩, hword⟩
  -- Behind its end the channel would show a bit above the highest one of the intensity.
  rw [testBit_of_eight_le intensity (by omega)] at hbit
  cases hbit

/-- A bit that a channel does not cover is not set by it. -/
theorem testBit_encode_of_not_covers {channel : Channel} {i : Nat}
    (h : channel.covers i = false) (intensity : UInt8) :
    (channel.encode intensity).toNat.testBit i = false := by
  rw [← Bool.not_eq_true] at h ⊢
  exact fun hbit => h (covers_of_testBit_encode hbit).2.1

/-! ### Channels that share no bit -/

/-- No bit of a pixel belongs to both channels. -/
def Apart (first second : Channel) : Prop :=
  ∀ i, ¬ (first.covers i = true ∧ second.covers i = true)

/-- Two channels that share no bit share none the other way round. -/
theorem Apart.symm {first second : Channel} (h : first.Apart second) : second.Apart first :=
  fun i hi => h i hi.symm

/-- A channel sees nothing of one that it shares no bit with. -/
theorem Apart.testBit_encode {channel other : Channel} (h : channel.Apart other) {i : Nat}
    (hi : channel.covers i = true) (intensity : UInt8) :
    (other.encode intensity).toNat.testBit i = false :=
  testBit_encode_of_not_covers (Bool.eq_false_iff.mpr fun hother => h i ⟨hi, hother⟩) intensity

/-! ### Reading a channel back -/

/-- The channel of the pixel holds the intensity: its highest bits, as many as there are places
for, and zeros behind them. -/
structure Holds (channel : Channel) (pixel : UInt32) (intensity : UInt8) : Prop where
  top : channel.value pixel >>> (channel.size.toNat - min channel.size.toNat 8) =
    intensity.toNat >>> (8 - min channel.size.toNat 8)
  low : channel.value pixel % 2 ^ (channel.size.toNat - min channel.size.toNat 8) = 0

/-- The bits of `value` are the bits of the pixel in the places of the channel. -/
theorem testBit_value (channel : Channel) (pixel : UInt32) (i : Nat) :
    (channel.value pixel).testBit i =
      (decide (i < channel.size.toNat) && pixel.toNat.testBit (channel.shift.toNat + i)) := by
  rw [value, Nat.one_shiftLeft, Nat.testBit_mod_two_pow, Nat.testBit_shiftRight]

/-- Take a channel that fits, and a pixel in whose places only the channel's own bits are set. Then
`value` reads back what `scale` made of the intensity. -/
theorem value_eq_scale {channel : Channel} {pixel : UInt32} {intensity : UInt8}
    (hfits : channel.fits = true)
    (hpixel : ∀ i, channel.covers i = true →
      pixel.toNat.testBit i = (channel.encode intensity).toNat.testBit i) :
    channel.value pixel = (channel.scale intensity).toNat := by
  obtain ⟨hpos, hend⟩ := fits_iff.mp hfits
  have hpresent : channel.present = true := present_iff.mpr (by omega)
  refine Nat.eq_of_testBit_eq fun i => ?_
  rw [testBit_value, testBit_scale (by omega)]
  by_cases hi : i < channel.size.toNat
  · have hcovers : channel.covers (channel.shift.toNat + i) = true := covers_iff.mpr (by omega)
    have hiff : channel.shift.toNat + channel.size.toNat ≤ channel.shift.toNat + i + 8 ↔
        channel.size.toNat ≤ i + 8 := by omega
    have hplace : channel.shift.toNat + i + 8 - (channel.shift.toNat + channel.size.toNat) =
        i + 8 - channel.size.toNat := by omega
    have hword : channel.shift.toNat + i < 32 := by omega
    rw [hpixel _ hcovers, testBit_encode, hplace]
    simp [hpresent, hi, hword, hiff]
  · -- Above the highest bit of the channel neither side has one.
    rw [testBit_of_eight_le intensity (by omega), decide_eq_false hi, Bool.false_and,
      Bool.and_false]

/-- Take a pixel in whose places no bit is set. Then `value` reads back zero. -/
theorem value_eq_zero {channel : Channel} {pixel : UInt32}
    (h : ∀ i, channel.covers i = true → pixel.toNat.testBit i = false) :
    channel.value pixel = 0 := by
  refine Nat.eq_of_testBit_eq fun i => ?_
  rw [testBit_value, Nat.zero_testBit]
  by_cases hi : i < channel.size.toNat
  · rw [h _ (covers_iff.mpr (by omega)), Bool.and_false]
  · rw [decide_eq_false hi, Bool.false_and]

/-- A channel that is read back as it was scaled `Holds` its intensity. -/
theorem holds_of_value {channel : Channel} {pixel : UInt32} {intensity : UInt8}
    (hsize : channel.size.toNat ≤ 32)
    (h : channel.value pixel = (channel.scale intensity).toNat) :
    channel.Holds pixel intensity := by
  by_cases hwide : 8 ≤ channel.size
  · have hmin : min channel.size.toNat 8 = 8 :=
      Nat.min_eq_right (UInt8.le_iff_toNat_le.mp hwide)
    rw [toNat_scale_of_le hwide hsize] at h
    constructor
    · rw [h, hmin, Nat.shiftLeft_shiftRight, Nat.sub_self, Nat.shiftRight_zero]
    · rw [h, hmin, Nat.shiftLeft_eq, Nat.mul_mod_left]
  · have hmin : min channel.size.toNat 8 = channel.size.toNat :=
      Nat.min_eq_left (Nat.le_of_lt (UInt8.lt_iff_toNat_lt.mp (UInt8.not_le.mp hwide)))
    rw [toNat_scale_of_lt hwide] at h
    constructor
    · rw [h, hmin, Nat.sub_self, Nat.shiftRight_zero]
    · rw [hmin, Nat.sub_self, Nat.pow_zero, Nat.mod_one]

/-- Take a channel that fits, and a pixel in whose places only the channel's own bits are set. Then
the channel `Holds` its intensity. -/
theorem holds_of_testBit {channel : Channel} {pixel : UInt32} {intensity : UInt8}
    (hfits : channel.fits = true)
    (hpixel : ∀ i, channel.covers i = true →
      pixel.toNat.testBit i = (channel.encode intensity).toNat.testBit i) :
    channel.Holds pixel intensity := by
  obtain ⟨-, hend⟩ := fits_iff.mp hfits
  exact holds_of_value (by omega) (value_eq_scale hfits hpixel)

end Channel

/-! ### All channels of a pixel -/

namespace PixelLayout

/-- `encode`, with each shift and each difference in range. -/
def encodeChecked (layout : PixelLayout) (r g b : UInt8) : Option UInt32 := do
  let red ← layout.red.encodeChecked r
  let green ← layout.green.encodeChecked g
  let blue ← layout.blue.encodeChecked b
  return red ||| green ||| blue

/-- The three colours have bits of their own, all of them inside the pixel. -/
structure Separate (layout : PixelLayout) : Prop where
  red_fits : layout.red.fits = true
  green_fits : layout.green.fits = true
  blue_fits : layout.blue.fits = true
  red_green : layout.red.Apart layout.green
  red_blue : layout.red.Apart layout.blue
  green_blue : layout.green.Apart layout.blue

/-- No shift is out of range in any of the three colours, so `encodeChecked` returns what `encode`
does. -/
theorem encodeChecked_eq (layout : PixelLayout) (r g b : UInt8) :
    layout.encodeChecked r g b = some (layout.encode r g b) := by
  simp [encodeChecked, Channel.encodeChecked_eq, encode]

/-- A bit of a pixel is set if one of the three colours sets it. -/
theorem testBit_encode (layout : PixelLayout) (r g b : UInt8) (i : Nat) :
    (layout.encode r g b).toNat.testBit i =
      ((layout.red.encode r).toNat.testBit i || (layout.green.encode g).toNat.testBit i ||
        (layout.blue.encode b).toNat.testBit i) := by
  rw [encode, UInt32.toNat_or, UInt32.toNat_or, Nat.testBit_or, Nat.testBit_or]

/-- Packing a colour keeps its channels apart, whatever the layout. No shift is out of range, and
each channel sets only bits of its own, none at all if it is not present. If the three channels are
`Separate`, each of them `Holds` its intensity in the pixel, and all other bits are zero, those of a
reserved channel that shares none with the colours included. -/
theorem encode_keeps_channels (layout : PixelLayout) (r g b : UInt8) :
    layout.encodeChecked r g b = some (layout.encode r g b) ∧
    (∀ (channel : Channel) (intensity : UInt8),
      channel.encodeChecked intensity = some (channel.encode intensity) ∧
      ∀ i, (channel.encode intensity).toNat.testBit i = true →
        channel.present = true ∧ channel.covers i = true ∧ i < 32) ∧
    (layout.Separate →
      layout.red.Holds (layout.encode r g b) r ∧
      layout.green.Holds (layout.encode r g b) g ∧
      layout.blue.Holds (layout.encode r g b) b ∧
      (∀ i, layout.red.covers i = false → layout.green.covers i = false →
        layout.blue.covers i = false → (layout.encode r g b).toNat.testBit i = false) ∧
      (layout.reserved.Apart layout.red → layout.reserved.Apart layout.green →
        layout.reserved.Apart layout.blue → layout.reserved.value (layout.encode r g b) = 0)) := by
  refine ⟨layout.encodeChecked_eq r g b, fun channel intensity =>
    ⟨channel.encodeChecked_eq intensity, fun i => Channel.covers_of_testBit_encode⟩, fun h => ?_⟩
  refine ⟨?_, ?_, ?_, ?_, ?_⟩
  · -- In the bits of one channel the other two contribute nothing.
    refine Channel.holds_of_testBit h.red_fits fun i hi => ?_
    rw [testBit_encode, h.red_green.testBit_encode hi, h.red_blue.testBit_encode hi,
      Bool.or_false, Bool.or_false]
  · refine Channel.holds_of_testBit h.green_fits fun i hi => ?_
    rw [testBit_encode, h.red_green.symm.testBit_encode hi, h.green_blue.testBit_encode hi,
      Bool.false_or, Bool.or_false]
  · refine Channel.holds_of_testBit h.blue_fits fun i hi => ?_
    rw [testBit_encode, h.red_blue.symm.testBit_encode hi, h.green_blue.symm.testBit_encode hi,
      Bool.false_or, Bool.false_or]
  · intro i hred hgreen hblue
    rw [testBit_encode, Channel.testBit_encode_of_not_covers hred,
      Channel.testBit_encode_of_not_covers hgreen, Channel.testBit_encode_of_not_covers hblue,
      Bool.or_false, Bool.or_false]
  · intro hred hgreen hblue
    refine Channel.value_eq_zero fun i hi => ?_
    rw [testBit_encode, hred.testBit_encode hi, hgreen.testBit_encode hi, hblue.testBit_encode hi,
      Bool.or_false, Bool.or_false]

/-- A narrow channel at the upper end, a wide one, one of five bits that starts in the middle
of a byte, and a reserved one between them. -/
def uneven : PixelLayout := ⟨⟨29, 3⟩, ⟨16, 12⟩, ⟨3, 5⟩, ⟨8, 8⟩⟩

/-- Take `uneven`, whose channels have three, twelve and five bits and no common boundary. Then
`encode_keeps_channels` reads back all three intensities, and the reserved byte is zero. -/
theorem encode_keeps_channels_uneven :
    uneven.Separate ∧ uneven.encode 0xA7 0xC3 0x5A = 0xAC300058 ∧
    uneven.red.Holds (uneven.encode 0xA7 0xC3 0x5A) 0xA7 ∧
    uneven.green.Holds (uneven.encode 0xA7 0xC3 0x5A) 0xC3 ∧
    uneven.blue.Holds (uneven.encode 0xA7 0xC3 0x5A) 0x5A ∧
    uneven.reserved.value (uneven.encode 0xA7 0xC3 0x5A) = 0 := by
  -- Channels in ascending order cannot overlap.
  have apart {a b : Channel} (h : a.shift.toNat + a.size.toNat ≤ b.shift.toNat) : a.Apart b := by
    rintro i ⟨ha, hb⟩
    rw [Channel.covers_iff] at ha hb
    omega
  have hseparate : uneven.Separate :=
    { red_fits := by decide
      green_fits := by decide
      blue_fits := by decide
      red_green := (apart (by decide)).symm
      red_blue := (apart (by decide)).symm
      green_blue := (apart (by decide)).symm }
  obtain ⟨hred, hgreen, hblue, -, hreserved⟩ :=
    (encode_keeps_channels uneven 0xA7 0xC3 0x5A).2.2 hseparate
  exact ⟨hseparate, by decide, hred, hgreen, hblue,
    hreserved (apart (by decide)) (apart (by decide)) (apart (by decide)).symm⟩

end PixelLayout

end EarlyBoot

import EarlyBoot.Proofs.Screen.Agreement
import EarlyBoot.Proofs.Screen.Bounds
import EarlyBoot.Proofs.Startup.Boot
import EarlyBoot.Region.Writer

/-!
# `EarlyBoot.Proofs.Startup.Shown`: what is seen after a start, and after a panic

A page is drawn on a console over the memory of the screen, and the bytes that it leaves
are written back to where they were read. So a pixel of the memory is a pixel of the page
(`pixel_write`), and consoles that agree show the same.

Both pages begin with a clear, so consoles on any two memories agree on them. The page of
a start depends on what the region says as well. The page of a panic does not: nothing of
what was shown before is left on it, and it only depends on the shape of the screen.

Main statements:

* `screen_present`, `screen_panic` : the memory of the screen after the two pages;
* `sameShown_write` : pages that agree show the same, wherever their screens are;
* `shown_independent` : what two starts and two panics show.
-/

set_option autoImplicit false

namespace EarlyBoot.Startup

open Screen

/-! ### Pixels in memory -/

namespace VideoMemory

/-- All bytes of a surface are in the memory. -/
def Holds (memory : VideoMemory) (surface : Surface) : Prop :=
  memory.base ≤ surface.address.toNat ∧
    surface.address.toNat + surface.geometry.size ≤ memory.base + memory.bytes.size

instance (memory : VideoMemory) (surface : Surface) : Decidable (memory.Holds surface) :=
  inferInstanceAs (Decidable (_ ∧ _))

/-- The bytes of a pixel of a surface, if the memory holds them. -/
def pixel? (memory : VideoMemory) (surface : Surface) (x y : Nat) : Option ByteArray :=
  memory.read? (surface.address.toNat + surface.geometry.offset x y)
    surface.geometry.depth.bytes

variable {memory memory' : VideoMemory} {surface surface' : Surface}

/-- A memory that holds a surface has the bytes of the surface, at its address. -/
theorem Holds.read_eq (h : memory.Holds surface) :
    memory.read? surface.address.toNat surface.geometry.size =
      some (memory.bytes.extract (surface.address.toNat - memory.base)
        (surface.address.toNat - memory.base + surface.geometry.size)) :=
  if_pos h

/-- The bytes that a memory has for a surface are as many as the surface takes. -/
theorem Holds.size_extract (h : memory.Holds surface) :
    (memory.bytes.extract (surface.address.toNat - memory.base)
      (surface.address.toNat - memory.base + surface.geometry.size)).size =
        surface.geometry.size := by
  obtain ⟨hbase, hend⟩ := h
  rw [ByteArray.size_extract]
  omega

/-- The console on the memory of a surface. -/
def console (memory : VideoMemory) (surface : Surface) (h : memory.Holds surface) : Console where
  geometry := surface.geometry
  canvas := ⟨_, Nat.le_of_eq h.size_extract.symm⟩

/-- As many bytes as a surface takes can be written where it is. -/
theorem Holds.splice_le (h : memory.Holds surface) {pixels : ByteArray}
    (hsize : pixels.size = surface.geometry.size) :
    surface.address.toNat - memory.base + pixels.size ≤ memory.bytes.size := by
  obtain ⟨hbase, hend⟩ := h
  omega

/-- A memory still holds a surface after its bytes were written. -/
theorem Holds.write (h : memory.Holds surface) {pixels : ByteArray}
    (hsize : pixels.size = surface.geometry.size) :
    (memory.write surface.address.toNat pixels).Holds surface := by
  refine ⟨h.1, ?_⟩
  show _ ≤ memory.base + (Bytes.splice memory.bytes _ pixels).size
  rw [Bytes.size_splice (h.splice_le hsize)]
  exact h.2

/-- As many bytes written over others at the same place leave nothing of those. -/
theorem Holds.write_write (h : memory.Holds surface) {pixels page : ByteArray}
    (hpixels : pixels.size = surface.geometry.size) (hpage : page.size = surface.geometry.size) :
    (memory.write surface.address.toNat pixels).write surface.address.toNat page =
      memory.write surface.address.toNat page := by
  have hsplice := Bytes.splice_splice (h.splice_le hpixels) (hpage.trans hpixels.symm)
  unfold VideoMemory.write
  rw [hsplice]

/-- A memory that holds a surface has the bytes of each of its pixels. -/
theorem Holds.pixel_eq (h : memory.Holds surface) {x y : Nat} (hx : x < surface.geometry.width)
    (hy : y < surface.geometry.height) :
    memory.pixel? surface x y =
      some (memory.bytes.extract
        (surface.address.toNat - memory.base + surface.geometry.offset x y)
        (surface.address.toNat - memory.base + surface.geometry.offset x y +
          surface.geometry.depth.bytes)) := by
  have hinside := surface.geometry.offset_add_le hx hy
  obtain ⟨hbase, hend⟩ := h
  have hstart : surface.address.toNat + surface.geometry.offset x y - memory.base =
      surface.address.toNat - memory.base + surface.geometry.offset x y := by omega
  rw [pixel?, read?, if_pos ⟨by omega, by omega⟩, hstart]

/-- A pixel of the memory is a pixel of what was written there. -/
theorem pixel_write (h : memory.Holds surface) {pixels : ByteArray}
    (hsize : pixels.size = surface.geometry.size) {x y : Nat} (hx : x < surface.geometry.width)
    (hy : y < surface.geometry.height) :
    (memory.write surface.address.toNat pixels).pixel? surface x y =
      some (pixels.extract (surface.geometry.offset x y)
        (surface.geometry.offset x y + surface.geometry.depth.bytes)) := by
  have hinside := surface.geometry.offset_add_le hx hy
  have hpixel := Bytes.extract_splice (h.splice_le hsize)
    (show surface.geometry.offset x y + surface.geometry.depth.bytes ≤ pixels.size by omega)
  rw [(h.write hsize).pixel_eq hx hy]
  exact congrArg some hpixel

/-- Two memories show the same on two surfaces: all pixels are there, and have the same
bytes. -/
def SameShown (memory : VideoMemory) (surface : Surface) (memory' : VideoMemory)
    (surface' : Surface) : Prop :=
  ∀ x y, x < surface.geometry.width → y < surface.geometry.height →
    ∃ bytes, memory.pixel? surface x y = some bytes ∧ memory'.pixel? surface' x y = some bytes

/-- Take two pages that agree, each on a surface of its own. Then the two memories show the same,
wherever the surfaces lie in them. -/
theorem sameShown_write (h : memory.Holds surface) (h' : memory'.Holds surface')
    (hgeometry : surface'.geometry = surface.geometry) {c d : Console}
    (hc : (memory.console surface h).Confined c) (hd : (memory'.console surface' h').Confined d)
    (hagree : c.Agree d) :
    SameShown (memory.write surface.address.toNat c.pixels) surface
      (memory'.write surface'.address.toNat d.pixels) surface' := by
  intro x y hx hy
  have hsize : c.pixels.size = surface.geometry.size := hc.size_eq.trans h.size_extract
  have hsize' : d.pixels.size = surface'.geometry.size := hd.size_eq.trans h'.size_extract
  have hshape : c.geometry = surface.geometry := hc.geometry_eq
  have hpixel := hagree.extract_eq (hshape ▸ hx) (hshape ▸ hy) rfl rfl
  refine ⟨_, pixel_write h hsize hx hy, ?_⟩
  rw [pixel_write h' hsize' (hgeometry ▸ hx) (hgeometry ▸ hy), hgeometry, ← hshape, hpixel]

/-- A console that is set up on a surface starts in its bounds. -/
theorem bounded_console (h : memory.Holds surface) : (memory.console surface h).Bounded :=
  ⟨Nat.zero_le _, Nat.lt_of_lt_of_le Nat.zero_lt_one (Nat.le_max_right _ _)⟩

/-- Two good starts with the same record show the same, since both clear the screen first. -/
theorem sameShown_bootReport (h : memory.Holds surface) (h' : memory'.Holds surface')
    (hgeometry : surface'.geometry = surface.geometry) (info : BootInfo) :
    SameShown
      (memory.write surface.address.toNat
        ((memory.console surface h).clear.bootReport info).pixels) surface
      (memory'.write surface'.address.toNat
        ((memory'.console surface' h').clear.bootReport info).pixels) surface' := by
  have hclear : (memory.console surface h).clear.Agree (memory'.console surface' h').clear :=
    Console.agree_clear hgeometry rfl
  exact sameShown_write h h' hgeometry (Console.confined_bootReport (bounded_console h) info)
    (Console.confined_bootReport (bounded_console h') info) (hclear.bootReport info)

/-- Two panics with the same message show the same, on surfaces of one shape. -/
theorem sameShown_panicPage (h : memory.Holds surface) (h' : memory'.Holds surface')
    (hgeometry : surface'.geometry = surface.geometry) (message : String)
    (location : Option Location) :
    SameShown
      (memory.write surface.address.toNat
        ((memory.console surface h).panicPage message location).pixels) surface
      (memory'.write surface'.address.toNat
        ((memory'.console surface' h').panicPage message location).pixels) surface' :=
  sameShown_write h h' hgeometry
    (Console.confined_panicPage (bounded_console h) message location)
    (Console.confined_panicPage (bounded_console h') message location)
    (Console.agree_panicPage hgeometry message location)

end VideoMemory

namespace Machine

open VideoMemory (SameShown)

variable {m : Machine} {memory : VideoMemory} {surface : Surface}

/-! ### The memory of the screen after a page -/

/-- A machine whose memory holds a surface can set up a console on it. -/
theorem console?_eq (hscreen : m.screen = memory) (h : memory.Holds surface) :
    m.console? surface = some (memory.console surface h) := by
  subst hscreen
  have hpixels : Console.onPixels surface.geometry _ = .ok (m.screen.console surface h) :=
    dif_pos (Nat.le_of_eq h.size_extract.symm)
  simp only [console?, h.read_eq, hpixels, Except.toOption]

/-- Displaying a console writes its bytes at the address of the surface. -/
theorem screen_display (m : Machine) (surface : Surface) (console : Console) :
    (m.display surface (some console)).screen =
      m.screen.write surface.address.toNat console.pixels := rfl

/-- Reporting a message keeps the memory of the screen. -/
theorem screen_report (m : Machine) (level : Log.Level) (message : String) :
    (m.report level message).screen = m.screen := rfl

/-- Publishing a surface keeps the memory of the screen. -/
theorem screen_publish (m : Machine) (surface : Surface) :
    (m.publish surface).screen = m.screen := by
  unfold publish
  split <;> rfl

/-- What `present` leaves in the memory of the screen is the page of a good start, on a cleared
console. The first display, of the cleared screen alone, is written over. -/
theorem screen_present (hscreen : m.screen = memory) (h : memory.Holds surface)
    (regionSize : Nat) (info : BootInfo) :
    (m.present surface regionSize info).screen =
      memory.write surface.address.toNat
        ((memory.console surface h).clear.bootReport info).pixels := by
  have hbounded := VideoMemory.bounded_console h
  have hclear : (memory.console surface h).clear.pixels.size = surface.geometry.size :=
    (Console.safe_follow .clear hbounded).confined.size_eq.trans h.size_extract
  have hpage : ((memory.console surface h).clear.bootReport info).pixels.size =
      surface.geometry.size :=
    (Console.confined_bootReport hbounded info).size_eq.trans h.size_extract
  -- Of all that is presented only the two displays touch the screen, and the page is written
  -- over the cleared pixels.
  rw [present, console?_eq hscreen h, Option.map_some, Option.map_some, screen_report,
    screen_display]
  rw [screen_report, screen_report, screen_report, screen_publish, screen_display,
    screen_report, hscreen, h.write_write hclear hpage]

/-- What a panic leaves in the memory of the screen is its page, if a surface was published. -/
theorem screen_panic (hpublished : m.surface.get? = some surface) (hscreen : m.screen = memory)
    (h : memory.Holds surface) (message : String) (location : Option Location) :
    (m.panic message location).screen =
      memory.write surface.address.toNat
        ((memory.console surface h).panicPage message location).pixels := by
  rw [panic, halt, showPanic, surface_say, surface_say, hpublished]
  dsimp only
  have hsaid (first second : Log.Record) : ((m.say first).say second).screen = memory := hscreen
  rw [console?_eq (hsaid _ _) h, Option.map_some, screen_display, hsaid]

/-! ### Two machines -/

/-- A start that succeeds, and publishes a surface that the machine has the memory for. -/
structure GoodStart (answer : UInt8) (screen : VideoMemory) (pointer : Option ByteArray)
    (surface : Surface) : Prop where
  ok : ((fresh answer screen).installLogger.start pointer).1 = .ok ()
  published : ((fresh answer screen).boot pointer).surface.get? = some surface
  holds : screen.Holds surface

variable {answer answer' : UInt8} {screen screen' : VideoMemory}
  {pointer pointer' : Option ByteArray} {surface' : Surface}

/-- Whether a start is good depends on the region and on the place of the memory, but not on the
bytes in it and not on the debug console. -/
theorem goodStart_iff :
    GoodStart answer screen pointer surface ↔
      (find pointer).value.toOption.map Found.surface = some surface ∧ screen.Holds surface := by
  rcases hfind : find pointer with ⟨error | found, records⟩
  · constructor
    · rintro ⟨hok, -, -⟩
      rw [start_of_error hfind] at hok
      cases hok
    · rintro ⟨hsurface, -⟩
      cases hsurface
  · -- What was published is what `find` found, so either side determines the other.
    have hpublished := (boot_of_ok answer screen hfind).1
    constructor
    · rintro ⟨-, hsurface, hholds⟩
      exact ⟨hpublished.symm.trans hsurface, hholds⟩
    · rintro ⟨hsurface, hholds⟩
      refine ⟨?_, hpublished.trans hsurface, hholds⟩
      rw [start_of_ok hfind]

/-- A good start leaves the page of the record that it has found. -/
theorem GoodStart.screen_boot (h : GoodStart answer screen pointer surface) :
    ∃ found, (find pointer).value = .ok found ∧ found.surface = surface ∧
      ((fresh answer screen).boot pointer).screen =
        screen.write surface.address.toNat
          ((screen.console surface h.holds).clear.bootReport found.info).pixels := by
  have hholds := h.holds
  obtain ⟨hsurface, -⟩ := goodStart_iff.mp h
  rcases hfind : find pointer with ⟨error | found, records⟩
  · rw [hfind] at hsurface
    cases hsurface
  · rw [hfind] at hsurface
    obtain rfl : found.surface = surface := Option.some.inj hsurface
    -- Nothing has touched the screen by the time the page is drawn.
    have hready : ((fresh answer screen).installLogger.sayAll records).screen = screen := by
      rw [installLogger_fresh, sayAll_eq]
      rfl
    refine ⟨found, rfl, rfl, ?_⟩
    rw [boot, start_of_ok hfind]
    exact screen_present hready hholds found.bytes.size found.info

/-- After a good start the memory still holds the surface. -/
theorem GoodStart.holds_boot (h : GoodStart answer screen pointer surface) :
    ((fresh answer screen).boot pointer).screen.Holds surface := by
  obtain ⟨found, -, -, hscreen⟩ := h.screen_boot
  have hpage := Console.confined_bootReport (VideoMemory.bounded_console h.holds) found.info
  rw [hscreen]
  exact h.holds.write (hpage.size_eq.trans h.holds.size_extract)

/-- What is seen does not depend on what was there before. Take two good starts from the same
region, with any bytes in memory and any answer of the debug console: all visible pixels are the
same. Take two good starts from any regions whose screens have one shape: after a panic with the
same message all visible pixels are the same. -/
theorem shown_independent (h : GoodStart answer screen pointer surface)
    (h' : GoodStart answer' screen' pointer' surface') :
    let booted := (fresh answer screen).boot pointer
    let booted' := (fresh answer' screen').boot pointer'
    (pointer' = pointer → SameShown booted.screen surface booted'.screen surface') ∧
    (surface'.geometry = surface.geometry → ∀ message location,
      SameShown (booted.panic message location).screen surface
        (booted'.panic message location).screen surface') := by
  intro booted booted'
  constructor
  · rintro rfl
    obtain ⟨found, hfound, hsurface, hscreen⟩ := h.screen_boot
    obtain ⟨found', hfound', hsurface', hscreen'⟩ := h'.screen_boot
    -- The same region says the same, and has the same surface.
    rw [hfound, Except.ok.injEq] at hfound'
    subst hfound'
    have hgeometry : surface'.geometry = surface.geometry := by rw [← hsurface, ← hsurface']
    have hshown := VideoMemory.sameShown_bootReport h.holds h'.holds hgeometry found.info
    rwa [← hscreen, ← hscreen'] at hshown
  · intro hgeometry message location
    rw [screen_panic h.published rfl h.holds_boot, screen_panic h'.published rfl h'.holds_boot]
    exact VideoMemory.sameShown_panicPage h.holds_boot h'.holds_boot hgeometry message location

/-- Take a screen of two by two cells, with a pixel more in both directions and two bytes
between its rows, and three machines: `booted` with a debug console, `booted'` without one and
with other bytes in its memory, and `other`, whose region says something else. The first two
show the same pages, and all three the same after a panic. -/
theorem shown_independent_padded :
    let mode : ScreenMode := ⟨4096, 17, 33, 70, 32, .bgrx⟩
    let region := (RegionWriter.empty.writeAll
      [.packedMap [⟨0, 1048576, .usable, 0⟩], .framebuffer mode]).closedBytes
    let region' := (RegionWriter.empty.writeAll
      [.framebuffer mode, .commandLine "quiet",
        .packedMap [⟨0, 4096, .reserved, 0⟩, ⟨4096, 2097152, .kernel, 0⟩]]).closedBytes
    let surface : Surface :=
      ⟨4096, ⟨17, 33, 70, .bits32, .bgrx, by decide, by decide, by decide, by decide⟩⟩
    let booted := (fresh 0xE9 ⟨4096, Bytes.filled 2310 0xAA⟩).boot (some region)
    let booted' := (fresh 0 ⟨4090, Bytes.filled 2400 0x55⟩).boot (some region)
    let other := (fresh 0 ⟨4096, Bytes.filled 2310 0⟩).boot (some region')
    surface.geometry.columns = 2 ∧ surface.geometry.rows = 2 ∧
    SameShown booted.screen surface booted'.screen surface ∧
    (∀ message location,
      SameShown (booted.panic message location).screen surface
        (booted'.panic message location).screen surface) ∧
    ∀ message location,
      SameShown (booted.panic message location).screen surface
        (other.panic message location).screen surface := by
  intro mode region region' surface
  have hfound : (find (some region)).value.toOption.map Found.surface = some surface := by
    decide +kernel
  have hfound' : (find (some region')).value.toOption.map Found.surface = some surface := by
    decide +kernel
  -- The memories are told by their sizes, so that none of their bytes is looked at.
  have hholds (base size : Nat) (value : UInt8) (hbase : base ≤ 4096)
      (hsize : 4096 + 2310 ≤ base + size) :
      VideoMemory.Holds ⟨base, Bytes.filled size value⟩ surface :=
    ⟨hbase, by rw [Bytes.size_filled]; exact hsize⟩
  have hgood : GoodStart 0xE9 ⟨4096, Bytes.filled 2310 0xAA⟩ (some region) surface :=
    goodStart_iff.mpr ⟨hfound, hholds _ _ _ (by decide) (by decide)⟩
  have hgood' : GoodStart 0 ⟨4090, Bytes.filled 2400 0x55⟩ (some region) surface :=
    goodStart_iff.mpr ⟨hfound, hholds _ _ _ (by decide) (by decide)⟩
  have hother : GoodStart 0 ⟨4096, Bytes.filled 2310 0⟩ (some region') surface :=
    goodStart_iff.mpr ⟨hfound', hholds _ _ _ (by decide) (by decide)⟩
  have hshown := shown_independent hgood hgood'
  exact ⟨by decide, by decide, hshown.1 rfl, hshown.2 rfl,
    (shown_independent hgood hother).2 rfl⟩

end Machine

end EarlyBoot.Startup

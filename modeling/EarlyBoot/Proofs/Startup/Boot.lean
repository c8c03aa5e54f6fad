import EarlyBoot.Proofs.DebugConsole.Carried
import EarlyBoot.Proofs.Text.Wording
import EarlyBoot.Startup.Machine

/-!
# `EarlyBoot.Proofs.Startup.Boot`: a failed start leaves the screen alone

A start has two halves. The first, `find`, reads the region behind the pointer and looks
for a surface in it; everything that can go wrong goes wrong there, and nothing is drawn
or published. The second, `Machine.present`, cannot fail. `start_eq` takes a start apart
in this way, and what a machine does follows half by half.

Every change to the text on the debug console is a record that was said, so the text is
that of the records in their order. `Transcribed` states this, and each step keeps it.

Main statements:

* `start_eq` : a start is `find`, and then `Machine.present` if there is a surface;
* `find_eq_ok` : what `find` has found if it does not fail;
* `sayAll_eq` : what records change, all at once;
* `boot_outcome` : what is left behind by a failed start, and by one that succeeds.
-/

set_option autoImplicit false

namespace EarlyBoot.Startup

open Screen

/-! ### Looking for a surface -/

/-- A region that can be shown: its bytes, what it says, and the surface to show it on. -/
structure Found where
  bytes : ByteArray
  info : BootInfo
  surface : Surface

/-- Looks for a surface in what is known about the machine. -/
def findSurface (bytes : ByteArray) (info : BootInfo) : Except BootError Found :=
  match info.framebuffer with
  | none    => .error .noFramebuffer
  | some fb =>
      match Surface.ofFramebuffer fb with
      | .error error => .error (.console error)
      | .ok surface  => .ok { bytes, info, surface }

/-- Looks for a surface behind a pointer. -/
def find (pointer : Option ByteArray) : Log.Logged (Except BootError Found) :=
  match borrowRegion pointer with
  | .error error => ⟨.error error, #[]⟩
  | .ok bytes    =>
      match load bytes with
      | ⟨.error error, records⟩ => ⟨.error error, records⟩
      | ⟨.ok info, records⟩     => ⟨findSurface bytes info, records⟩

/-- A region that `load` accepts was accepted by `parse`, with the same record. -/
theorem load_eq_ok {bytes : ByteArray} {info : BootInfo} (h : (load bytes).value = .ok info) :
    (BootInfo.parse bytes .standard).value = .ok info := by
  unfold load at h
  split at h
  · cases h
  · next parsed records hparse =>
      dsimp only at h
      rw [hparse]
      split at h
      · cases h
        rfl
      · cases h

/-- What `findSurface` finds is the surface of the framebuffer in the record, beside the bytes and
the record that it was given. -/
theorem findSurface_eq_ok {bytes : ByteArray} {info : BootInfo} {found : Found}
    (h : findSurface bytes info = .ok found) :
    found.bytes = bytes ∧ found.info = info ∧
      ∃ fb, info.framebuffer = some fb ∧ Surface.ofFramebuffer fb = .ok found.surface := by
  unfold findSurface at h
  split at h
  · cases h
  · next fb hfb =>
      split at h
      · cases h
      · next surface hsurface =>
          rw [Except.ok.injEq] at h
          subst h
          exact ⟨rfl, rfl, fb, hfb, hsurface⟩

/-- What `find` finds is the surface of the framebuffer in the record of the region behind the
pointer. -/
theorem find_eq_ok {pointer : Option ByteArray} {found : Found}
    (h : (find pointer).value = .ok found) :
    borrowRegion pointer = .ok found.bytes ∧
      (BootInfo.parse found.bytes .standard).value = .ok found.info ∧
      ∃ fb, found.info.framebuffer = some fb ∧
        Surface.ofFramebuffer fb = .ok found.surface := by
  unfold find at h
  split at h
  · cases h
  · next bytes hbytes =>
      split at h
      · cases h
      · next info records hload =>
          obtain ⟨hsame, hinfo, hframebuffer⟩ := findSurface_eq_ok h
          subst hinfo hsame
          exact ⟨hbytes, load_eq_ok (congrArg Log.Logged.value hload), hframebuffer⟩

namespace Machine

/-! ### What is said -/

/-- The text of records on the debug console, under a logger. -/
def lines (logger : DebugConsole.Logger) (records : List Log.Record) : String :=
  String.join (records.map fun record => (logger.log record).getD "")

/-- Without records there is no text. -/
theorem lines_nil (logger : DebugConsole.Logger) : lines logger [] = "" := rfl

/-- The text of two lists of records is that of the first and then that of the second. -/
theorem lines_append (logger : DebugConsole.Logger) (front rest : List Log.Record) :
    lines logger (front ++ rest) = lines logger front ++ lines logger rest := by
  simp [lines]

/-- The text of one record is its line, if the logger lets it through. -/
theorem lines_singleton (logger : DebugConsole.Logger) (record : Log.Record) :
    lines logger [record] = (logger.log record).getD "" := by
  simp [lines]

/-- Without a logger no record leaves any text. -/
theorem lines_of_not_installed {logger : DebugConsole.Logger} (h : logger.installed = false)
    (records : List Log.Record) : lines logger records = "" := by
  induction records with
  | nil => rfl
  | cons record records ih =>
      rw [← List.singleton_append, lines_append, ih, lines_singleton,
        DebugConsole.Logger.log_of_not_installed h]
      rfl

/-- With a logger there is one line for each record whose level is in `passing` of its threshold,
the line that `lineOf` spells out. -/
theorem lines_of_installed (threshold : Log.Threshold) (records : List Log.Record) :
    lines { installed := true, threshold } records =
      String.join ((records.filter fun r =>
        r.level ∈ DebugConsole.passing threshold).map DebugConsole.lineOf) := by
  induction records with
  | nil => rfl
  | cons record records ih =>
      have hadmits := DebugConsole.mem_passing_iff threshold record.level
      rw [← List.singleton_append, lines_append, ih, lines_singleton, DebugConsole.Logger.log,
        DebugConsole.Logger.direct_eq]
      -- An installed logger has a line for the records that pass, and an empty text for the others.
      by_cases hpassing : record.level ∈ DebugConsole.passing threshold
      · simp [hpassing, hadmits.mp hpassing]
      · simp [hpassing]

/-- Saying records changes what was said and what was sent to the debug console, and nothing
else. -/
theorem sayAll_eq (m : Machine) (records : Array Log.Record) :
    m.sayAll records =
      { m with
        records := m.records ++ records
        written := m.written ++ lines m.logger records.toList } := by
  rw [sayAll, ← Array.foldl_toList]
  obtain ⟨records⟩ := records
  -- What the first record leaves is what the others start with.
  induction records generalizing m with
  | nil => simp [lines_nil]
  | cons record records ih =>
      rw [List.foldl_cons, ih, say, ← List.singleton_append, lines_append, lines_singleton]
      simp [String.append_assoc]

/-- The text on the debug console is that of the records, under the logger in use. -/
structure Transcribed (logger : DebugConsole.Logger) (m : Machine) : Prop where
  logger_eq : m.logger = logger
  written_eq : m.written = lines logger m.records.toList

variable {logger : DebugConsole.Logger} {m : Machine}

/-- Saying records keeps the text that of the records. -/
theorem Transcribed.sayAll (h : Transcribed logger m) (records : Array Log.Record) :
    Transcribed logger (m.sayAll records) := by
  rw [sayAll_eq]
  refine ⟨h.logger_eq, ?_⟩
  rw [Array.toList_append, lines_append, h.logger_eq, h.written_eq]

/-- Saying one record keeps the text that of the records. -/
theorem Transcribed.say (h : Transcribed logger m) (record : Log.Record) :
    Transcribed logger (m.say record) :=
  h.sayAll #[record]

/-- Reporting a message keeps the text that of the records. -/
theorem Transcribed.report (h : Transcribed logger m) (level : Log.Level) (message : String) :
    Transcribed logger (m.report level message) :=
  h.say _

/-- Halting keeps the text that of the records. -/
theorem Transcribed.halt (h : Transcribed logger m) : Transcribed logger m.halt :=
  ⟨h.logger_eq, h.written_eq⟩

/-! ### What is drawn and published -/

/-- Displaying a console changes the memory of the screen, and nothing else. -/
theorem display_eq (m : Machine) (surface : Surface) (console : Option Console) :
    ∃ screen, m.display surface console = { m with screen } := by
  cases console with
  | none => exact ⟨m.screen, rfl⟩
  | some console => exact ⟨_, rfl⟩

/-- Displaying a console keeps the cell for a surface. -/
@[simp]
theorem surface_display (m : Machine) (surface : Surface) (console : Option Console) :
    (m.display surface console).surface = m.surface := by
  obtain ⟨screen, hdisplay⟩ := display_eq m surface console
  rw [hdisplay]

/-- Displaying a console keeps the text that of the records. -/
theorem Transcribed.display (h : Transcribed logger m) (surface : Surface)
    (console : Option Console) : Transcribed logger (m.display surface console) := by
  obtain ⟨screen, hdisplay⟩ := display_eq m surface console
  rw [hdisplay]
  exact ⟨h.logger_eq, h.written_eq⟩

/-- Publishing a surface keeps the text that of the records. -/
theorem Transcribed.publish (h : Transcribed logger m) (surface : Surface) :
    Transcribed logger (m.publish surface) := by
  unfold Machine.publish
  split
  · exact ⟨h.logger_eq, h.written_eq⟩
  · exact h.report _ _

/-- Saying a record keeps the cell for a surface. -/
@[simp]
theorem surface_say (m : Machine) (record : Log.Record) : (m.say record).surface = m.surface := rfl

/-- Reporting a message keeps the cell for a surface. -/
@[simp]
theorem surface_report (m : Machine) (level : Log.Level) (message : String) :
    (m.report level message).surface = m.surface := rfl

/-- Take a machine that has published nothing. Then `publish` fills the cell with the surface. -/
theorem surface_publish (h : m.surface = .empty) (surface : Surface) :
    (m.publish surface).surface.get? = some surface := by
  unfold publish
  split
  · next cell hset => exact WriteOnce.get_of_set hset
  · next hset =>
      rw [h] at hset
      cases hset

/-! ### The two halves of a start -/

/-- Presenting what was found keeps the text that of the records. -/
theorem Transcribed.present (h : Transcribed logger m) (surface : Surface) (regionSize : Nat)
    (info : BootInfo) : Transcribed logger (m.present surface regionSize info) := by
  have hcleared := (h.report .debug (shapeMessage surface.geometry)).display surface
    ((m.console? surface).map Console.clear)
  have hreported :=
    (((hcleared.publish surface).report .info
      ("boot info: " ++ Text.decimal regionSize ++ " bytes")).report .info
        info.systemReport).report .info info.memoryMapReport
  exact (hreported.display surface _).report .info _

/-- Take a machine that has published nothing. Then `present` publishes the surface that it
shows. -/
theorem surface_present (h : m.surface = .empty) (surface : Surface) (regionSize : Nat)
    (info : BootInfo) : (m.present surface regionSize info).surface.get? = some surface := by
  have hempty : ((m.report .debug (shapeMessage surface.geometry)).display surface
      ((m.console? surface).map Console.clear)).surface = .empty := by
    rw [surface_display, surface_report, h]
  have hpublished := surface_publish hempty surface
  simpa only [present, surface_report, surface_display] using hpublished

/-- A start is `find`, and behind it `present` if there is a surface. So everything that can fail
comes before the first pixel and before the publication. -/
theorem start_eq (m : Machine) (pointer : Option ByteArray) :
    m.start pointer =
      match find pointer with
      | ⟨.error error, records⟩ => (.error error, m.sayAll records)
      | ⟨.ok found, records⟩    =>
          (.ok (), (m.sayAll records).present found.surface found.bytes.size found.info) := by
  unfold start find
  cases borrowRegion pointer with
  | error error => rfl
  | ok bytes =>
      dsimp only
      -- `start` logs the records as they come and `find` hands them over; both branch alike.
      obtain ⟨value, records⟩ := load bytes
      cases value with
      | error error => rfl
      | ok info =>
          dsimp only [findSurface]
          cases info.framebuffer with
          | none => rfl
          | some fb =>
              dsimp only
              cases Surface.ofFramebuffer fb with
              | error error => rfl
              | ok surface => rfl

/-- A start keeps the text that of the records, whether it fails or not. -/
theorem Transcribed.start (h : Transcribed logger m) (pointer : Option ByteArray) :
    Transcribed logger (m.start pointer).2 := by
  rw [start_eq]
  split
  · exact h.sayAll _
  · exact (h.sayAll _).present _ _ _

variable {pointer : Option ByteArray} {records : Array Log.Record}

/-- A start that finds no surface changes nothing but what was said. -/
theorem start_of_error {error : BootError} (h : find pointer = ⟨.error error, records⟩) :
    m.start pointer = (.error error, m.sayAll records) := by
  rw [start_eq, h]

/-- A start that finds a surface presents it. -/
theorem start_of_ok {found : Found} (h : find pointer = ⟨.ok found, records⟩) :
    m.start pointer =
      (.ok (), (m.sayAll records).present found.surface found.bytes.size found.info) := by
  rw [start_eq, h]

/-! ### Whole starts -/

/-- A machine that has not been started. -/
def fresh (answer : UInt8) (screen : VideoMemory) : Machine := { answer, screen }

/-- The logger of a machine whose debug console gives `answer`. -/
def loggerFor (answer : UInt8) : DebugConsole.Logger :=
  if answer = DebugConsole.presentAnswer then { installed := true, threshold := some logLevel }
  else {}

/-- A logger is installed exactly if a debug console answers, and nothing else is changed. -/
theorem installLogger_fresh (answer : UInt8) (screen : VideoMemory) :
    (fresh answer screen).installLogger =
      { fresh answer screen with logger := loggerFor answer } := by
  unfold installLogger loggerFor
  by_cases hanswer : answer = DebugConsole.presentAnswer
  · subst hanswer
    rfl
  · have habsent : DebugConsole.isPresent (fresh answer screen).answer = false :=
      beq_eq_false_iff_ne.mpr hanswer
    rw [habsent, if_neg hanswer]
    rfl

/-- The text of records on a debug console: if it answers with `0xE9`, the line of each record from
debug level up, and nothing otherwise. -/
theorem lines_loggerFor (answer : UInt8) (records : List Log.Record) :
    lines (loggerFor answer) records =
      if answer = 0xE9 then
        String.join ((records.filter fun r =>
          r.level ∈ DebugConsole.passing (some .debug)).map DebugConsole.lineOf)
      else "" := by
  unfold loggerFor
  split
  · next hanswer =>
      rw [if_pos (show answer = 0xE9 from hanswer)]
      exact lines_of_installed (some logLevel) records
  · next hanswer =>
      rw [if_neg (show answer ≠ 0xE9 from hanswer)]
      exact lines_of_not_installed rfl records

/-- A boot keeps the text that of the records, through the start and the halt. -/
theorem Transcribed.boot (h : Transcribed logger m.installLogger) (pointer : Option ByteArray) :
    Transcribed logger (m.boot pointer) := by
  have hstart := h.start pointer
  unfold Machine.boot
  split
  · next heq =>
      rw [heq] at hstart
      exact (hstart.report _ _).halt
  · next heq =>
      rw [heq] at hstart
      exact (hstart.report _ _).halt

section

variable (answer : UInt8) (screen : VideoMemory)

/-- Take a pointer behind which `find` fails. Then the boot leaves the screen and the cell for a
surface alone, and the last record says why it failed, in the words of `Wording.boot`. -/
theorem boot_of_error {error : BootError} (h : find pointer = ⟨.error error, records⟩) :
    ((fresh answer screen).boot pointer).screen = screen ∧
      ((fresh answer screen).boot pointer).surface = .empty ∧
      ((fresh answer screen).boot pointer).records.back? =
        some ⟨.error, startTarget, "boot failed: " ++ Wording.boot error⟩ := by
  rw [← Wording.boot_eq, boot, start_of_error h, installLogger_fresh, sayAll_eq]
  exact ⟨rfl, rfl, Array.back?_push⟩

/-- Take a pointer behind which `find` finds a surface. Then the boot publishes that surface, and
the last record says that the system is halted. -/
theorem boot_of_ok {found : Found} (h : find pointer = ⟨.ok found, records⟩) :
    ((fresh answer screen).boot pointer).surface.get? = some found.surface ∧
      ((fresh answer screen).boot pointer).records.back? =
        some ⟨.info, startTarget, "System halted."⟩ := by
  have hempty : ((fresh answer screen).installLogger.sayAll records).surface = .empty := by
    rw [installLogger_fresh, sayAll_eq]
    rfl
  rw [boot, start_of_ok h]
  exact ⟨surface_present hempty _ _ _, Array.back?_push⟩

end

/-! ### Panics behind a start -/

/-- Panics, one after the other. -/
def panicAll (m : Machine) (panics : List (String × Option Location)) : Machine :=
  panics.foldl (fun m panic => m.panic panic.1 panic.2) m

/-- A panic keeps the text that of the records. -/
theorem Transcribed.panic (h : Transcribed logger m) (message : String)
    (location : Option Location) : Transcribed logger (m.panic message location) := by
  have hsaid :=
    (h.say ⟨.error, panicTarget, panicMessage message location⟩).say
      ⟨.error, panicTarget, "The system has been halted."⟩
  unfold Machine.panic showPanic
  split
  · exact hsaid.halt
  · exact (hsaid.display _ _).halt

/-- Panics keep the text that of the records. -/
theorem Transcribed.panicAll (h : Transcribed logger m)
    (panics : List (String × Option Location)) : Transcribed logger (m.panicAll panics) := by
  induction panics generalizing m with
  | nil => exact h
  | cons panic panics ih => exact ih (h.panic panic.1 panic.2)

/-- Take a machine that has published nothing. Then a panic leaves the screen alone and publishes
nothing. -/
theorem panic_of_no_surface (h : m.surface = .empty) (message : String)
    (location : Option Location) :
    (m.panic message location).screen = m.screen ∧
      (m.panic message location).surface = .empty := by
  unfold panic showPanic
  rw [surface_say, surface_say, h]
  exact ⟨rfl, h⟩

/-- Take a machine that has published nothing. Then any number of panics leave the screen alone. The
induction is on the panics, with `panic_of_no_surface` for each. -/
theorem panicAll_of_no_surface (h : m.surface = .empty)
    (panics : List (String × Option Location)) : (m.panicAll panics).screen = m.screen := by
  induction panics generalizing m with
  | nil => rfl
  | cons panic panics ih =>
      obtain ⟨hscreen, hsurface⟩ := panic_of_no_surface h panic.1 panic.2
      exact (ih hsurface).trans hscreen

/-- The outcome of a boot, for any answer of the debug console, any screen and any pointer. If the
start fails, the screen is as it was and stays so in every later panic, no surface is published, and
the last record names the error in the words of `Wording.boot`. If it succeeds, the surface of the
framebuffer in the parsed record is published, and the last record says that the system is halted.
The debug console is sent the lines of the records if it answers with `0xE9`, and nothing
otherwise. -/
theorem boot_outcome (answer : UInt8) (screen : VideoMemory) (pointer : Option ByteArray)
    (panics : List (String × Option Location)) :
    let result := ((fresh answer screen).installLogger.start pointer).1
    let booted := (fresh answer screen).boot pointer
    let later := booted.panicAll panics
    (∀ error, result = .error error →
      booted.screen = screen ∧ booted.surface = .empty ∧ later.screen = screen ∧
      booted.records.back? =
        some ⟨.error, startTarget, "boot failed: " ++ Wording.boot error⟩) ∧
    (result = .ok () →
      (∃ bytes info fb surface,
        borrowRegion pointer = .ok bytes ∧ (BootInfo.parse bytes .standard).value = .ok info ∧
        info.framebuffer = some fb ∧ Surface.ofFramebuffer fb = .ok surface ∧
        booted.surface.get? = some surface) ∧
      booted.records.back? = some ⟨.info, startTarget, "System halted."⟩) ∧
    later.written =
      if answer = 0xE9 then
        String.join ((later.records.toList.filter fun r =>
          r.level ∈ DebugConsole.passing (some .debug)).map DebugConsole.lineOf)
      else "" := by
  intro result booted later
  -- The text on the debug console follows the records whatever the outcome is.
  have hready : Transcribed (loggerFor answer) (fresh answer screen).installLogger := by
    rw [installLogger_fresh]
    exact ⟨rfl, rfl⟩
  have hlater : Transcribed (loggerFor answer) later := (hready.boot pointer).panicAll panics
  have hwritten := hlater.written_eq
  rw [lines_loggerFor] at hwritten
  rcases hfind : find pointer with ⟨error | found, records⟩
  · have hresult : result = .error error := congrArg Prod.fst (start_of_error hfind)
    obtain ⟨hscreen, hsurface, hlast⟩ := boot_of_error answer screen hfind
    refine ⟨?_, ?_, hwritten⟩
    · intro failure hfailure
      rw [hresult, Except.error.injEq] at hfailure
      subst hfailure
      exact ⟨hscreen, hsurface, (panicAll_of_no_surface hsurface panics).trans hscreen, hlast⟩
    · intro hok
      rw [hresult] at hok
      cases hok
  · have hresult : result = .ok () := congrArg Prod.fst (start_of_ok hfind)
    obtain ⟨hpublished, hlast⟩ := boot_of_ok answer screen hfind
    refine ⟨?_, ?_, hwritten⟩
    · intro failure hfailure
      rw [hresult] at hfailure
      cases hfailure
    · intro _
      obtain ⟨hbytes, hinfo, fb, hfb, hsurface⟩ := find_eq_ok (congrArg Log.Logged.value hfind)
      exact ⟨⟨_, _, fb, _, hbytes, hinfo, hfb, hsurface, hpublished⟩, hlast⟩

example : ((fresh 0 {}).boot none).records =
    #[⟨.error, "kernel", "boot failed: bootloader passed a null boot info pointer"⟩] := by
  decide

end Machine

end EarlyBoot.Startup

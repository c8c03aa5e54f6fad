import EarlyBoot.DebugConsole
import EarlyBoot.Screen.Page
import EarlyBoot.Startup.Handoff
import EarlyBoot.WriteOnce

/-!
# `EarlyBoot.Startup.Machine`: one start of the machine

The machine has a debug console, a stretch of memory for the screen, and a cell for
the surface that is drawn on. A start installs the logger if a debug console
answers, loads the region, brings up a console, shows and logs the reports, and
halts; whatever goes wrong is logged before the halt. A panic is logged and, if
a surface has been published, shown on it. Whether interrupts are masked makes no
difference to any of this, so a machine does not say.

Main statement:

* `written_say` : without a logger nothing is written to the debug console.
-/

set_option autoImplicit false

namespace EarlyBoot.Startup

open Screen

/-- The memory of a screen. -/
structure VideoMemory where
  base : Nat := 0
  bytes : ByteArray := ByteArray.empty

namespace VideoMemory

/-- The bytes at an address, if the stretch holds them all. -/
def read? (memory : VideoMemory) (address length : Nat) : Option ByteArray :=
  if memory.base ≤ address ∧ address + length ≤ memory.base + memory.bytes.size then
    some (memory.bytes.extract (address - memory.base) (address - memory.base + length))
  else
    none

/-- The stretch with the bytes at an address overwritten. -/
def write (memory : VideoMemory) (address : Nat) (bytes : ByteArray) : VideoMemory :=
  { memory with bytes := Bytes.splice memory.bytes (address - memory.base) bytes }

end VideoMemory

/-- A machine, as far as a start can change it. -/
structure Machine where
  /-- What a read of the debug console yields. -/
  answer : UInt8 := DebugConsole.presentAnswer
  logger : DebugConsole.Logger := {}
  /-- The records that were logged, whether or not they reached the debug console. -/
  records : Array Log.Record := #[]
  /-- The text written to the debug console. -/
  written : String := ""
  /-- The memory of the screen. -/
  screen : VideoMemory := {}
  /-- The surface that is drawn on, once there is one. -/
  surface : WriteOnce Surface := .empty
  /-- How often the machine has halted. -/
  halts : Nat := 0

namespace Machine

/-- The part that speaks during a start. -/
def startTarget : String := "kernel"

/-- The part that speaks during a panic. -/
def panicTarget : String := "kernel::panic"

/-- Most verbose level that is logged. -/
def logLevel : Log.Level := .debug

def say (m : Machine) (record : Log.Record) : Machine :=
  { m with
    records := m.records.push record
    written := m.written ++ (m.logger.log record).getD "" }

/-- Logs records, oldest first. -/
def sayAll (m : Machine) (records : Array Log.Record) : Machine :=
  records.foldl say m

/-- Logs a message of the start. -/
def report (m : Machine) (level : Log.Level) (message : String) : Machine :=
  m.say { level, target := startTarget, message }

/-- Installs the logger if a debug console answers. -/
def installLogger (m : Machine) : Machine :=
  if DebugConsole.isPresent m.answer then
    match m.logger.install (some logLevel) with
    | (true, logger) => { m with logger }
    | (false, _)     => { m with written := m.written ++ "logger already installed\n" }
  else
    m

/-- A console on a surface; there is none where the machine has no memory for it. -/
def console? (m : Machine) (surface : Surface) : Option Console :=
  match m.screen.read? surface.address.toNat surface.geometry.size with
  | none        => none
  | some pixels => (Console.onPixels surface.geometry pixels).toOption

/-- Puts what is on a console into the memory of the screen. -/
def display (m : Machine) (surface : Surface) : Option Console → Machine
  | none         => m
  | some console => { m with screen := m.screen.write surface.address.toNat console.pixels }

def publish (m : Machine) (surface : Surface) : Machine :=
  match m.surface.set surface with
  | .ok cell => { m with surface := cell }
  | .error _ => m.report .error "framebuffer surface was already published"

/-- The record of a console's shape. -/
def shapeMessage (g : Geometry) : String :=
  "console: " ++ Text.decimal g.width ++ "x" ++ Text.decimal g.height ++ " pixels, " ++
    Text.decimal g.columns ++ " columns, " ++ Text.decimal g.rows ++ " rows"

/-- Shows and logs the reports on a surface. It is published once it is cleared; the page of
the start is then drawn on the same console. A console takes whatever is written to it, so the
page never fails to be drawn. -/
def present (m : Machine) (surface : Surface) (regionSize : Nat) (info : BootInfo) : Machine :=
  let cleared := (m.console? surface).map Console.clear
  m.report .debug (shapeMessage surface.geometry)
    |>.display surface cleared
    |>.publish surface
    |>.report .info ("boot info: " ++ Text.decimal regionSize ++ " bytes")
    |>.report .info info.systemReport
    |>.report .info info.memoryMapReport
    |>.display surface (cleared.map fun console => console.bootReport info)
    |>.report .info "[ OK ] Kernel initialization complete!"

/-- Loads the region behind a pointer and shows what it says. -/
def start (m : Machine) (pointer : Option ByteArray) : Except BootError Unit × Machine :=
  match borrowRegion pointer with
  | .error error => (.error error, m)
  | .ok region   =>
      match load region with
      | ⟨.error error, records⟩ => (.error error, m.sayAll records)
      | ⟨.ok info, records⟩     =>
          let m := m.sayAll records
          match info.framebuffer with
          | none    => (.error .noFramebuffer, m)
          | some fb =>
              match Surface.ofFramebuffer fb with
              | .error error => (.error (.console error), m)
              | .ok surface  => (.ok (), m.present surface region.size info)

def halt (m : Machine) : Machine :=
  { m with halts := m.halts + 1 }

/-- A whole start, up to the halt. -/
def boot (m : Machine) (pointer : Option ByteArray) : Machine :=
  match m.installLogger.start pointer with
  | (.ok (), m)       => (m.report .info "System halted.").halt
  | (.error error, m) => (m.report .error ("boot failed: " ++ error.message)).halt

/-- The message that a panic is logged with. -/
def panicMessage (message : String) : Option Location → String
  | none          => "KERNEL PANIC: " ++ message
  | some location => "KERNEL PANIC at " ++ location.shown ++ ": " ++ message

/-- Shows a panic on the published surface. -/
def showPanic (m : Machine) (message : String) (location : Option Location) : Machine :=
  match m.surface.get? with
  | none         => m
  | some surface =>
      m.display surface ((m.console? surface).map fun console =>
        console.panicPage message location)

/-- A panic, up to the halt. -/
def panic (m : Machine) (message : String) (location : Option Location) : Machine :=
  (m.say ⟨.error, panicTarget, panicMessage message location⟩
    |>.say ⟨.error, panicTarget, "The system has been halted."⟩
    |>.showPanic message location).halt

/-- Take a machine whose logger was never installed. Then `Machine.say` keeps the record, and
writes nothing to the debug console. -/
theorem written_say {m : Machine} (h : m.logger.installed = false) (record : Log.Record) :
    (m.say record).written = m.written := by
  simp [say, DebugConsole.Logger.log_of_not_installed h]

end Machine

end EarlyBoot.Startup

import EarlyBoot.Log

/-!
# `EarlyBoot.DebugConsole`: log lines for a debug console

A debug console answers every read of its port with a fixed byte, and takes text
there. A logger is installed at most once, together with the threshold that
records have to pass; from then on each admitted record is written to the port as
one line. Interrupts are masked meanwhile, so that nothing can split the line, and
let through again only if they were before. Traces are written as they are, with
or without a logger.

Main statements:

* `install_of_installed` : a second installation fails and changes nothing;
* `log_of_not_installed` : without a logger records are lost.
-/

set_option autoImplicit false

namespace EarlyBoot.DebugConsole

/-- The port that a debug console is read from and written to. -/
def port : UInt16 := 0x402

/-- What a read yields if a debug console is there. -/
def presentAnswer : UInt8 := 0xE9

/-- Whether an answer is that of a debug console. -/
def isPresent (answer : UInt8) : Bool :=
  answer == presentAnswer

/-- What can be observed at the ports and the processor. -/
inductive Event where
  | installed (ok : Bool)
  /-- Interrupts are masked. -/
  | mask
  /-- Interrupts are let through again. -/
  | unmask
  /-- The bytes of a text are written to a port, one after the other. -/
  | out (port : UInt16) (text : String)
  deriving DecidableEq, Repr

/-- Whether a logger is installed, and what it lets through. -/
structure Logger where
  installed : Bool := false
  threshold : Log.Threshold := none
  deriving DecidableEq, Repr

/-- What is asked of the console. -/
inductive Request where
  | install (threshold : Log.Threshold)
  /-- Log a record, if a logger is installed. -/
  | log (record : Log.Record)
  /-- Hand a record to the writer of records, logger or not. -/
  | direct (record : Log.Record)
  | trace (text : String)
  deriving DecidableEq, Repr

/-- Events with interrupts masked around them. Where they are masked already, nothing is to
be done, and they stay masked. -/
def guarded (interrupts : Bool) (events : List Event) : List Event :=
  if interrupts then .mask :: events ++ [.unmask] else events

/-- Writes a line, if there is one, as a whole. -/
def writeLine (interrupts : Bool) : Option String → List Event
  | none      => []
  | some line => guarded interrupts [.out port line]

namespace Logger

/-- Installs the logger, unless that was done before. -/
def install (logger : Logger) (threshold : Log.Threshold) : Bool × Logger :=
  if logger.installed then (false, logger) else (true, { installed := true, threshold })

/-- The line of a record that is admitted, with the line feed that closes it. -/
def direct (logger : Logger) (record : Log.Record) : Option String :=
  if logger.threshold.admits record.level then some (record.line ++ "\n") else none

/-- The line of a record that reaches the logger and is admitted. -/
def log (logger : Logger) (record : Log.Record) : Option String :=
  if logger.installed && logger.threshold.admits record.level then logger.direct record else none

/-- Answers one request, while interrupts are let through or are not. -/
def step (interrupts : Bool) (logger : Logger) : Request → List Event × Logger
  | .install threshold =>
      match logger.install threshold with
      | (ok, logger) => ([.installed ok], logger)
  | .log record    => (writeLine interrupts (logger.log record), logger)
  | .direct record => (writeLine interrupts (logger.direct record), logger)
  | .trace text    => (if text.isEmpty then [] else [.out port text], logger)

/-- Answers requests one after the other, keeping the events of each apart. Each leaves
interrupts as it finds them. -/
def run (interrupts : Bool) (logger : Logger) : List Request → List (List Event) × Logger
  | []                  => ([], logger)
  | request :: requests =>
      match logger.step interrupts request with
      | (events, logger) =>
          match logger.run interrupts requests with
          | (rest, logger) => (events :: rest, logger)

/-- Take a logger that is already installed. Then `Logger.install` answers with a failure, and the
threshold stays the one of the first installation. -/
theorem install_of_installed {logger : Logger} (h : logger.installed = true)
    (threshold : Log.Threshold) : logger.install threshold = (false, logger) := by
  simp [install, h]

/-- Take a logger that was never installed. Then `Logger.log` has no line for any record,
however urgent the record is. -/
theorem log_of_not_installed {logger : Logger} (h : logger.installed = false)
    (record : Log.Record) : logger.log record = none := by
  simp [log, h]

end Logger

end EarlyBoot.DebugConsole

import EarlyBoot.BootInfo.Parse
import EarlyBoot.BootInfo.Report
import EarlyBoot.Region.Writer

/-!
# `EarlyBoot.Inspector.Command`: a tool for regions in files

The tool writes a sample region to a file, or inspects the region in a file: it
lists the header and every tag, and then prints the reports of the region. What
has been listed stays listed when a later step fails.

Which paths there are, and why one cannot be read or written, is a matter of the
system that the files are in. The tool is given two operations, `Files`, and makes
do with what they answer.

Main statement:

* `run_inspect` : an inspection reads one file, and that is all.
-/

set_option autoImplicit false

namespace EarlyBoot.Inspector

open Text Register

/-- What the tool is asked to do. -/
inductive Command where
  | generate (out : String)
  | inspect (file : String)
  | usage
  deriving DecidableEq, Repr

/-- The command that arguments ask for; more arguments than needed are ignored. -/
def Command.ofArgs : List String → Command
  | "gen" :: out :: _      => .generate out
  | "inspect" :: file :: _ => .inspect file
  | _                      => .usage

/-- What the tool prints, and its exit code. -/
structure Output where
  code : Nat
  stdout : String := ""
  stderr : String := ""
  deriving DecidableEq, Repr

namespace Output

def usage : Output where
  code := 2
  stderr := "usage: bootinfo gen <out> | bootinfo inspect <file>\n"

/-- A failure, behind what has been printed before. -/
def failure (stdout message : String) : Output where
  code := 1
  stdout
  stderr := "bootinfo: " ++ message ++ "\n"

end Output

/-- The two things that can be done with a file. Either may fail, with an error in words. -/
structure Files (m : Type → Type) where
  /-- The contents of the file that a path names. -/
  read : String → m (Except String ByteArray)
  /-- Makes the file that a path names hold these bytes. -/
  write : String → ByteArray → m (Except String Unit)

/-! ### The sample region -/

def mebibyte : UInt64 := 1024 * 1024

/-- Flags of the sample's other processors. -/
def sampleFlags : ProcessorFlags :=
  ProcessorFlags.clear.set .enabled true

/-- Flags of the processor that the sample boots on. -/
def sampleBootFlags : ProcessorFlags :=
  sampleFlags.set .bootstrap true

def sampleRanges : List MemoryRange :=
  [⟨0x0, 0x9F000, .usable, 0⟩,
    ⟨0x9F000, 0x61000, .reserved, 0⟩,
    ⟨mebibyte, mebibyte, .kernel, 0⟩,
    ⟨2 * mebibyte, 8 * mebibyte, .ramdisk, 0⟩,
    ⟨10 * mebibyte, 500 * mebibyte, .usable, 0⟩,
    ⟨510 * mebibyte, 2 * mebibyte, .acpiReclaimable, 0⟩,
    ⟨0x80000000, 8 * mebibyte, .framebuffer, 0⟩]

def sampleMode : ScreenMode where
  address := 0x80000000
  width := 1280
  height := 800
  pitch := 1280 * 4
  depth := 32
  layout := .bgrx

/-- What the sample says. -/
def sampleEntries : List RegionWriter.Entry :=
  [.bootloader "bootinfo sample",
    .commandLine "console=fb loglevel=debug",
    .packedMap sampleRanges,
    .framebuffer sampleMode,
    .acpiRoot 0x1FB7E014,
    .processors 0 [⟨0, sampleBootFlags⟩, ⟨1, sampleFlags⟩, ⟨2, sampleFlags⟩, ⟨3, sampleFlags⟩],
    .ramdisk (2 * mebibyte) (8 * mebibyte)]

/-- A region like those of a small virtual machine. -/
def sampleRegion : ByteArray :=
  (RegionWriter.empty.writeAll sampleEntries).closedBytes

/-! ### The two commands -/

/-- What is printed after the sample was, or was not, written to `out`. -/
def generateOutput (out : String) : Except String Unit → Output
  | .error message => .failure "" message
  | .ok ()         =>
      { code := 0
        stderr := "wrote " ++ decimal sampleRegion.size ++ " byte boot info region to " ++ out ++
          "\n" }

def headerLine (header : Header) : String :=
  "header: magic " ++ hex 8 header.magic.toNat ++ ", total size " ++
    decimal header.totalSize.toNat ++ ", version " ++ decimal header.version.toNat

def tagLine (tag : RawTag) : String :=
  "  tag " ++ alignRight 6 (decimal tag.kind.code.toNat) ++ " @ " ++ hex 4 tag.position.offset ++
    ": " ++ tag.kind.name ++ " (" ++ decimal tag.size.toNat ++ " bytes, flags " ++
    hex 4 tag.flags.toNat ++ ")"

/-- The header and all tags of a region, and an empty line. -/
def listing (region : Region) : String :=
  unlines (headerLine region.header :: region.tags.map tagLine ++ [""])

/-- The two reports, an empty line between them. -/
def reports (info : BootInfo) : String :=
  info.systemReport ++ "\n" ++ info.memoryMapReport

/-- What is printed about the contents of a file, or about why they cannot be read. -/
def inspectOutput : Except String ByteArray → Output
  | .error message => .failure "" message
  | .ok contents   =>
      match Region.read contents .standard with
      | .error error => .failure "" error.message
      | .ok region   =>
          match (BootInfo.parse contents .standard).value with
          | .error error => .failure (listing region) error.message
          | .ok info     => { code := 0, stdout := listing region ++ reports info }

/-- Does what the arguments ask for. -/
def run {m : Type → Type} [Monad m] (files : Files m) (args : List String) : m Output :=
  match Command.ofArgs args with
  | .usage        => return .usage
  | .inspect file => return inspectOutput (← files.read file)
  | .generate out => return generateOutput out (← files.write out sampleRegion)

/-- Take arguments that ask for an inspection, and files of any system. Then `run` reads the one
file, says what `inspectOutput` makes of it, and does nothing else with files. -/
theorem run_inspect {m : Type → Type} [Monad m] {args : List String} {file : String}
    (h : Command.ofArgs args = .inspect file) (files : Files m) :
    run files args = do return inspectOutput (← files.read file) := by
  simp only [run, h]

end EarlyBoot.Inspector

import EarlyBoot.BootInfo
import EarlyBoot.Text.Layout

/-!
# `EarlyBoot.BootInfo.Report`: what is known, in words

Two reports for people: a block about the machine as a whole, and the memory map
as a table with one row for each entry. Both are lists of lines.

Main statement:

* `length_memoryMapLines` : the table has one line per entry, and five more.
-/

set_option autoImplicit false

namespace EarlyBoot.BootInfo

open Text

/-- The line above and below each report. -/
def reportRule : String := String.ofList (List.replicate 80 '-')

/-- Column titles of the memory map; each row stands behind two spaces. -/
def memoryMapColumns : String := "  Base Address       | Length             | Type"

/-- The lines of the report about the machine. -/
def systemLines (info : BootInfo) : List String :=
  ["System Information:", reportRule,
    "  Bootloader:    " ++ (info.bootloader.map BootText.shown).getD "(unknown)",
    "  CPUs:          " ++ decimal info.processorCount.toNat,
    "  Usable RAM:    " ++ decimal info.usableMebibytes.toNat ++ " MiB"] ++
  (match info.framebuffer with
    | none    => []
    | some fb =>
        ["  Display:       " ++ decimal fb.width.toNat ++ "x" ++ decimal fb.height.toNat ++ " @ " ++
            decimal fb.depth.toNat ++ " bpp",
          "  Framebuffer:   " ++ hex 16 fb.address.toNat]) ++
  (match info.commandLine with
    | none      => []
    | some text => ["  Command line:  " ++ text.shown]) ++
  [match info.acpiRoot with
    | none      => "  ACPI:          Not available"
    | some root => "  ACPI:          Available at " ++ hex 16 root.address.toNat,
   match info.ramdisk with
    | none      => "  InitRD:        Not loaded"
    | some disk => "  InitRD:        Loaded (" ++ decimal (disk.length.toNat / 1024) ++ " KiB)",
   reportRule]

def systemReport (info : BootInfo) : String :=
  unlines info.systemLines

/-- The row of a memory range in the table. -/
def memoryMapRow (range : MemoryRange) : String :=
  "  " ++ range.row

def memoryMapLines (map : MemoryMap) : List String :=
  ["Memory Map:", reportRule, memoryMapColumns, reportRule] ++ map.entries.map memoryMapRow ++
    [reportRule]

def memoryMapReport (info : BootInfo) : String :=
  match info.memoryMap with
  | none     => unlines ["No memory map available!"]
  | some map => unlines (memoryMapLines map)

/-- The table of a memory map has one line for each entry and five lines around them: the title, the
column titles and three rules. -/
theorem length_memoryMapLines (map : MemoryMap) :
    (memoryMapLines map).length = map.entries.length + 5 := by
  simp only [memoryMapLines, List.length_append, List.length_map, List.length_cons,
    List.length_nil]
  omega

end EarlyBoot.BootInfo

import EarlyBoot.BootInfo.Report
import EarlyBoot.Screen.Console

/-!
# `EarlyBoot.Screen.Page`: what the machine shows

The page of a good start holds a banner, the report about the machine, the
memory map with its rows coloured by kind, and closing words. The page of a
panic is white on red and holds the message and where it came from.

Main statement:

* `setColors_colors` : choosing the colours that are already chosen changes nothing.
-/

set_option autoImplicit false

namespace EarlyBoot.Screen

open BootInfo (reportRule memoryMapColumns)

/-- Width of the banner in characters. -/
def bannerWidth : Nat := 80

/-- The line above and below a title. -/
def bannerRule : String := String.ofList (List.replicate bannerWidth '=')

/-- A title in the middle of the banner. -/
def title (words : String) : String := Text.centred bannerWidth words

def bannerText : String :=
  Text.unlines ["", bannerRule, "", title "Kernel", "", bannerRule]

/-- Colour of a row of the memory map. -/
def rowColor (kind : MemoryKind) : Color :=
  match kind with
  | .usable               => .green
  | .reserved | .bad      => .red
  | .kernel | .bootloader => .yellow
  | _                     => .white

namespace Console

/-- Choosing the colours that are already chosen changes nothing in the console. -/
@[simp]
theorem setColors_colors (c : Console) : c.setColors c.ink c.paper = c := rfl

/-- Writes a text in a colour and goes back to the colour before. -/
def writeIn (c : Console) (color : Color) (text : String) : Console :=
  let ink := c.ink
  let paper := c.paper
  ((c.setColors color paper).write text).setColors ink paper

/-- The banner of a start. -/
def banner (c : Console) : Console :=
  c.writeIn .cyan bannerText
    |>.write "\n"
    |>.status .info "Kernel starting...\n\n"

/-- The rows of a memory map, each in its colour; the last colour stays. -/
def memoryMapRows (c : Console) (ranges : List MemoryRange) : Console :=
  ranges.foldl
    (fun c range =>
      let paper := c.paper
      (c.setColors (rowColor range.kind) paper).write ("  " ++ range.row ++ "\n"))
    c

/-- The memory map, or a warning that there is none. -/
def memoryMap (c : Console) (info : BootInfo) : Console :=
  match info.memoryMap with
  | none     => c.status .warn "No memory map available!\n"
  | some map =>
      let ink := c.ink
      let paper := c.paper
      (c.status .info "Memory Map:\n"
        |>.write (Text.unlines [reportRule, memoryMapColumns, reportRule])
        |>.memoryMapRows map.entries).setColors ink paper
        |>.write (reportRule ++ "\n")

/-- The page of a good start. -/
def bootReport (c : Console) (info : BootInfo) : Console :=
  c.banner
    |>.status .info info.systemReport
    |>.newline
    |>.memoryMap info
    |>.newline
    |>.status .ok "Kernel initialization complete!\n"
    |>.newline
    |>.write "Early initialization finished.\n"
    |>.write "Further subsystems are not yet implemented.\n"
    |>.write "System halted.\n"

end Console

/-- A place in a source text. -/
structure Location where
  file : String
  line : Nat
  column : Nat
  deriving DecidableEq, Repr

/-- The place as it is shown. -/
def Location.shown (l : Location) : String :=
  l.file ++ ":" ++ Text.decimal l.line ++ ":" ++ Text.decimal l.column

/-- The text of a panic page. -/
def panicText (message : String) (location : Option Location) : String :=
  Text.unlines
    (["", "", bannerRule, title "KERNEL PANIC", bannerRule, "",
        "FATAL ERROR: " ++ message] ++
      (location.toList.map fun l => "  at " ++ l.shown) ++
      ["", "The system has been halted to prevent damage.",
        "Please restart your computer.", "", bannerRule])

/-- The page of a panic, on a cleared screen. -/
def Console.panicPage (c : Console) (message : String) (location : Option Location) : Console :=
  (c.setColors .white .red).clear.write (panicText message location)

end EarlyBoot.Screen

import EarlyBoot.Screen.Page

/-!
# `EarlyBoot.Proofs.Screen.Pages`: a page is a run of instructions

Each part of a page takes the colours of the console that it is drawn on and puts them
back at its end, so the same colours are in force wherever a part begins. With these
colours known, a page is a fixed list of instructions, and what is true of every run of
a console is true of the pages.

Main statements:

* `Kept.write` : what a text leaves alone;
* `bootReport_eq_run`, `panicPage_eq_run` : the instructions of the two pages.
-/

set_option autoImplicit false

namespace EarlyBoot.Screen

open BootInfo (reportRule memoryMapColumns)

namespace Console

/-! ### Colours in force -/

/-- The colours that characters are drawn in and on. -/
def colors (c : Console) : Color × Color := (c.ink, c.paper)

/-- The colours in force are those that were chosen. -/
theorem colors_setColors (c : Console) (ink paper : Color) :
    (c.setColors ink paper).colors = (ink, paper) := rfl

/-- A new line keeps the colours in force. -/
@[simp]
theorem colors_newline (c : Console) : c.newline.colors = c.colors := by
  unfold newline
  split
  · split <;> rfl
  · rfl

/-! ### What text leaves alone -/

/-- A part of a console that text leaves alone: neither a new line, nor a move inside the
line, nor a character that is drawn changes it. -/
structure Kept {α : Type} (part : Console → α) : Prop where
  newline : ∀ c, part c.newline = part c
  move : ∀ (c : Console) (column : Nat), part { c with column } = part c
  printHere : ∀ c ch, part (c.printHere ch) = part c

namespace Kept

variable {α : Type} {part : Console → α}

/-- A tab keeps the part. -/
theorem tab (h : Kept part) (c : Console) : part c.tab = part c := by
  unfold Console.tab
  dsimp only
  split
  · exact h.newline c
  · exact h.move c _

/-- A character that is drawn keeps the part, with or without a new line in front. -/
theorem print (h : Kept part) (c : Console) (ch : Char) : part (c.print ch) = part c := by
  unfold Console.print
  split
  · exact (h.printHere c.newline ch).trans (h.newline c)
  · exact h.printHere c ch

/-- A character of any kind keeps the part. -/
theorem putChar (h : Kept part) (c : Console) (ch : Char) : part (c.putChar ch) = part c := by
  unfold Console.putChar
  split
  · rfl
  · split
    · exact h.newline c
    · exact h.move c 0
    · exact h.tab c
    · exact h.print c _

/-- A text keeps the part, since each of its characters does. -/
theorem write (h : Kept part) (c : Console) (text : String) : part (c.write text) = part c := by
  unfold Console.write
  induction text.toList generalizing c with
  | nil => rfl
  | cons ch chs ih => exact (ih (c.putChar ch)).trans (h.putChar c ch)

end Kept

/-- Text keeps the colours in force. -/
theorem kept_colors : Kept colors :=
  ⟨colors_newline, fun _ _ => rfl, fun _ _ => rfl⟩

/-- Text keeps the shape of the screen. -/
theorem kept_geometry : Kept geometry :=
  ⟨geometry_newline, fun _ _ => rfl, fun _ _ => rfl⟩

/-- A text keeps the colours in force. -/
@[simp]
theorem colors_write (c : Console) (text : String) : (c.write text).colors = c.colors :=
  kept_colors.write c text

/-- A text in another colour puts the colours in force back. -/
@[simp]
theorem colors_writeIn (c : Console) (color : Color) (text : String) :
    (c.writeIn color text).colors = c.colors := by
  rw [writeIn, colors_setColors]
  rfl

/-- A status line puts the colours in force back. -/
@[simp]
theorem colors_status (c : Console) (status : Status) (text : String) :
    (c.status status text).colors = c.colors := by
  rw [Console.status, colors_setColors]
  rfl

/-- A text keeps the colour that characters are drawn on. -/
theorem paper_write (c : Console) (text : String) : (c.write text).paper = c.paper :=
  congrArg Prod.snd (colors_write c text)

/-! ### The page of a good start -/

-- A run is taken apart by rewriting. Left to unfolding, it is compared with a text that is
-- written, both being folds, and the text is evaluated character by character.

/-- A run follows its first instruction, and then the others. -/
theorem run_cons (c : Console) (instruction : Instruction) (rest : List Instruction) :
    c.run (instruction :: rest) = (c.follow instruction).run rest := by
  rw [run, List.foldl_cons, run]

/-- A run of no instructions has no effect. -/
theorem run_nil (c : Console) : c.run [] = c := by
  rw [run, List.foldl_nil]

/-- A run that starts with a text writes it, and then follows the others. -/
theorem run_write (c : Console) (text : String) (rest : List Instruction) :
    c.run (.write text :: rest) = (c.write text).run rest := by
  rw [run_cons, follow]

/-- A run that starts with a new line does it, and then follows the others. -/
theorem run_newline (c : Console) (rest : List Instruction) :
    c.run (.newline :: rest) = c.newline.run rest := by
  rw [run_cons, follow]

/-- A run that starts with colours chooses them, and then follows the others. -/
theorem run_setColors (c : Console) (ink paper : Color) (rest : List Instruction) :
    c.run (.setColors ink paper :: rest) = (c.setColors ink paper).run rest := by
  rw [run_cons, follow]

/-- A run that starts with a status line writes it, and then follows the others. -/
theorem run_status (c : Console) (status : Status) (text : String) (rest : List Instruction) :
    c.run (.status status text :: rest) = (c.status status text).run rest := by
  rw [run_cons, follow]

/-- A run of two lists of instructions is the run of the first and then that of the second. -/
theorem run_append (c : Console) (front rest : List Instruction) :
    c.run (front ++ rest) = (c.run front).run rest :=
  List.foldl_append

/-- The rows of a memory map, each in its colour on `paper`. -/
def rowInstructions (paper : Color) (ranges : List MemoryRange) : List Instruction :=
  ranges.flatMap fun range =>
    [.setColors (rowColor range.kind) paper, .write ("  " ++ range.row ++ "\n")]

/-- The rows of a memory map are a run, which depends on the background colour only. -/
theorem memoryMapRows_eq_run (c : Console) (ranges : List MemoryRange) :
    c.memoryMapRows ranges = c.run (rowInstructions c.paper ranges) := by
  induction ranges generalizing c with
  | nil => rfl
  | cons range ranges ih =>
      -- The row is on the same paper as the ones behind it.
      have hpaper (row : String) : ((c.setColors (rowColor range.kind) c.paper).write row).paper =
          c.paper :=
        paper_write (c.setColors (rowColor range.kind) c.paper) row
      have hrest := ih ((c.setColors (rowColor range.kind) c.paper).write
        ("  " ++ range.row ++ "\n"))
      rw [hpaper] at hrest
      rw [rowInstructions] at hrest ⊢
      rw [List.flatMap_cons, run_append, run_setColors, run_write, run_nil, ← hrest, memoryMapRows,
        List.foldl_cons, memoryMapRows]

/-- The memory map, on a console that writes in `ink` on `paper`. -/
def memoryMapInstructions (ink paper : Color) (info : BootInfo) : List Instruction :=
  match info.memoryMap with
  | none     => [.status .warn "No memory map available!\n"]
  | some map =>
      [.status .info "Memory Map:\n",
        .write (Text.unlines [reportRule, memoryMapColumns, reportRule])] ++
      rowInstructions paper map.entries ++
      [.setColors ink paper, .write (reportRule ++ "\n")]

/-- The memory map is a run, which depends on the colours in force only. -/
theorem memoryMap_eq_run (c : Console) (info : BootInfo) :
    c.memoryMap info = c.run (memoryMapInstructions c.ink c.paper info) := by
  unfold memoryMap memoryMapInstructions
  cases info.memoryMap with
  | none => rfl
  | some map =>
      dsimp only
      have hpaper (text : String) : ((c.status .info "Memory Map:\n").write text).paper = c.paper :=
        paper_write _ text
      rw [run_append, run_append, run_status, run_write, run_nil, run_setColors, run_write, run_nil,
        memoryMapRows_eq_run, hpaper]

/-- The page of a good start, on a console that writes in `ink` on `paper`. -/
def bootInstructions (ink paper : Color) (info : BootInfo) : List Instruction :=
  [.setColors .cyan paper, .write bannerText, .setColors ink paper, .write "\n",
    .status .info "Kernel starting...\n\n", .status .info info.systemReport, .newline] ++
  memoryMapInstructions ink paper info ++
  [.newline, .status .ok "Kernel initialization complete!\n", .newline,
    .write "Early initialization finished.\n",
    .write "Further subsystems are not yet implemented.\n",
    .write "System halted.\n"]

/-- The page of a good start is a run, which depends only on what is reported and on the colours in
force: the banner and the status lines put those back, so `bootInstructions` can name them. -/
theorem bootReport_eq_run (c : Console) (info : BootInfo) :
    c.bootReport info = c.run (bootInstructions c.ink c.paper info) := by
  -- The banner and a status put the colours back, so the memory map finds those of `c`.
  have hcolors : (c.banner.status .info info.systemReport).newline.colors = c.colors := by
    simp only [banner, colors_newline, colors_status, colors_write, colors_writeIn]
  have hink : (c.banner.status .info info.systemReport).newline.ink = c.ink :=
    congrArg Prod.fst hcolors
  have hpaper : (c.banner.status .info info.systemReport).newline.paper = c.paper :=
    congrArg Prod.snd hcolors
  unfold bootReport
  rw [memoryMap_eq_run, hink, hpaper]
  simp only [bootInstructions, run_append, run_setColors, run_write, run_status, run_newline,
    run_nil]
  rw [banner, writeIn]

/-! ### The page of a panic -/

/-- The page of a panic, which only depends on what is said on it. -/
def panicInstructions (message : String) (location : Option Location) : List Instruction :=
  [.setColors .white .red, .clear, .write (panicText message location)]

/-- The page of a panic is a run, which depends only on what is said on it. -/
theorem panicPage_eq_run (c : Console) (message : String) (location : Option Location) :
    c.panicPage message location = c.run (panicInstructions message location) := rfl

end Console

end EarlyBoot.Screen

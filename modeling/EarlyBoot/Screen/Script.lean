import EarlyBoot.Screen.Page

/-!
# `EarlyBoot.Screen.Script`: a page as coloured words

A script is a list of words, each in one colour. It says what a page shows and in
which colours, but not how the page is drawn: whatever a console does to show the
page of a good start, the script of that page is what is read on it. So that it can
be held against the page, a script takes nothing from it: labels, colours, banner
and closing words are written out here, and the reports are the ones that are
logged.

Main statements:

* `words_memoryMapScript` : the words about the memory map are its report behind a
  label;
* `words_bootScript` : the words of the page are the two reports, between the
  banner and the closing words.
-/

set_option autoImplicit false

namespace EarlyBoot.Screen

open BootInfo (reportRule memoryMapColumns memoryMapRow)

/-- Words, each in one colour. -/
abbrev Script := List (Color × String)

namespace Script

/-- All words, without their colours. -/
def words (script : Script) : String :=
  String.join (script.map Prod.snd)

/-- Writes each of the words in its colour, and goes back to the colour before. -/
def draw (script : Script) (c : Console) : Console :=
  (script.foldl (fun c part => (c.setColors part.1 c.paper).write part.2) c).setColors
    c.ink c.paper

end Script

/-- The colour of a memory map row: what can be used is green, what must not be touched is red,
what the start itself takes is yellow, and all else is white. -/
def rowInk (kind : MemoryKind) : Color :=
  if kind = .usable then .green
  else if kind = .reserved ∨ kind = .bad then .red
  else if kind = .kernel ∨ kind = .bootloader then .yellow
  else .white

/-- The script of the memory map, on a console that writes in `ink`. -/
def memoryMapScript (ink : Color) (info : BootInfo) : Script :=
  match info.memoryMap with
  | none     => [(.yellow, "[WARN] " ++ info.memoryMapReport)]
  | some map =>
      [(.white, "[INFO] Memory Map:\n"),
        (ink, Text.unlines [reportRule, memoryMapColumns, reportRule])] ++
      map.entries.map (fun range => (rowInk range.kind, memoryMapRow range ++ "\n")) ++
      [(ink, reportRule ++ "\n")]

/-- The words of the banner: a title in the middle of eighty columns, between two rules. -/
def bannerWords : String :=
  "\n================================================================================\n" ++
    "\n                                     Kernel                                     \n" ++
    "\n================================================================================\n"

/-- The words at the end of the page. -/
def closingWords : String :=
  "\nEarly initialization finished.\n" ++
    "Further subsystems are not yet implemented.\n" ++
    "System halted.\n"

/-- The script of the page of a good start, on a console that writes in `ink`. -/
def bootScript (ink : Color) (info : BootInfo) : Script :=
  [(.cyan, bannerWords),
    (ink, "\n"),
    (.white, "[INFO] Kernel starting...\n\n"),
    (.white, "[INFO] " ++ info.systemReport),
    (ink, "\n")] ++
  memoryMapScript ink info ++
  [(ink, "\n"),
    (.green, "[ OK ] Kernel initialization complete!\n"),
    (ink, closingWords)]

/-! ### What is read on the page -/

namespace Script

/-- An empty script has no words. -/
@[simp]
theorem words_nil : words [] = "" := rfl

/-- The words of a part stand in front of the words of the rest. -/
@[simp]
theorem words_cons (part : Color × String) (script : Script) :
    words (part :: script) = part.2 ++ words script := by
  simp [words, String.join_cons]

/-- The words of two scripts in a row are the words of the first and then those of the second. -/
@[simp]
theorem words_append (s t : Script) : words (s ++ t) = words s ++ words t := by
  simp [words, String.join_append]

end Script

/-- Take one part for each item, in any colour, and end it with a line feed. Then the words of the
script are `Text.unlines` of the lines. -/
theorem words_lines {α : Type} (color : α → Color) (line : α → String) (items : List α) :
    Script.words (items.map fun item => (color item, line item ++ "\n")) =
      Text.unlines (items.map line) := by
  simp [Script.words, Text.unlines, Function.comp_def]

/-- The words of `memoryMapScript` are the report `memoryMapReport` behind a label, which warns if
there is no memory map. So the page and the log say the same about memory. -/
theorem words_memoryMapScript (ink : Color) (info : BootInfo) :
    (memoryMapScript ink info).words =
      (if info.memoryMap.isSome then "[INFO] " else "[WARN] ") ++ info.memoryMapReport := by
  cases h : info.memoryMap with
  | none => simp [memoryMapScript, h]
  | some map =>
      have hlabel (rest : String) :
          "[INFO] Memory Map:\n" ++ rest = "[INFO] " ++ ("Memory Map:\n" ++ rest) := by
        rw [← String.append_assoc]
        rfl
      simp only [memoryMapScript, h, BootInfo.memoryMapReport, BootInfo.memoryMapLines,
        Script.words_append, Script.words_cons, Script.words_nil, words_lines]
      simp [Text.unlines, String.join_append, String.append_assoc, hlabel]

/-- The words of `bootScript` are, in this order: the banner, the starting line, the system report,
the memory map report and the closing words. The colours are left out here. -/
theorem words_bootScript (ink : Color) (info : BootInfo) :
    (bootScript ink info).words =
      bannerWords ++ "\n" ++ "[INFO] Kernel starting...\n\n" ++
        ("[INFO] " ++ info.systemReport ++ "\n") ++
        ((if info.memoryMap.isSome then "[INFO] " else "[WARN] ") ++
          info.memoryMapReport ++ "\n") ++
        ("[ OK ] Kernel initialization complete!\n" ++ closingWords) := by
  simp only [bootScript, Script.words_append, Script.words_cons, Script.words_nil,
    words_memoryMapScript, String.append_assoc, String.append_empty]

end EarlyBoot.Screen

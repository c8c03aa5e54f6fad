import EarlyBoot.BootInfo.Parse
import EarlyBoot.Proofs.Screen.Bounds
import EarlyBoot.Region.Writer
import EarlyBoot.Screen.Script

/-!
# `EarlyBoot.Proofs.Screen.Report`: the page of a good start, character by character

A console draws the page of a good start in parts. It chooses colours and puts them back,
writes the memory map from its entries, and mixes new lines with line feeds that are
written. What comes of it is said by a script: the script of the page, which reads like
the two reports between a banner and closing words, is fed to the console one character
after the other, each in its colour.

The script has its own labels, colours, banner and closing words. That these are the ones
that the page uses is said here, part by part (`rowInk_eq`, `bannerText_eq`, `closing_draw`).

Colours are put back behind each part, so each part finds the caller's and only adds words
to those of the parts in front of it (`Script.write_draw` and its siblings). On a screen with
room for a cell a new line is a line feed (`newline_eq_write`).

Main statements:

* `Script.draw_eq_feed` : a script is drawn character by character;
* `Script.memoryMap_draw`, `bootReport_eq_draw` : the memory map and the page as scripts;
* `bootReport_eq_feed` : what drawing the page does.
-/

set_option autoImplicit false

namespace EarlyBoot.Screen

open BootInfo (memoryMapRow)

namespace Console

variable {c : Console}

/-! ### Text in a colour -/

/-- A text in a colour keeps the shape of the screen. -/
theorem geometry_writeIn (c : Console) (color : Color) (text : String) :
    (c.writeIn color text).geometry = c.geometry :=
  kept_geometry.write (c.setColors color c.paper) text

/-- Choosing the colours in force changes nothing. -/
theorem setColors_of_colors {ink paper : Color} (h : c.colors = (ink, paper)) :
    c.setColors ink paper = c := by
  obtain ⟨rfl, rfl⟩ : c.ink = ink ∧ c.paper = paper := Prod.mk.inj h
  rfl

/-- A text is written in the colour in force. -/
theorem write_eq_writeIn {color : Color} (h : c.ink = color) (text : String) :
    c.write text = c.writeIn color text := by
  subst h
  exact (setColors_of_colors (colors_write c text)).symm

/-- A status line is its label and its text, written in the colour of the status. -/
theorem status_eq_writeIn (c : Console) (status : Status) (text : String) :
    c.status status text = c.writeIn status.color (status.label ++ text) := rfl

/-- On a screen with room for a cell, `newline` is writing a line feed. The page can be a list of
words for this reason only there. -/
theorem newline_eq_write (hcolumns : 1 ≤ c.geometry.columns) (hrows : 1 ≤ c.geometry.rows) :
    c.newline = c.write "\n" := by
  have hcell : ¬ (c.geometry.columns = 0 ∨ c.geometry.rows = 0) := by omega
  show c.newline = c.putChar '\n'
  rw [putChar, if_neg hcell]

/-- Draws a character in a colour and goes back to the colour before. -/
def putIn (c : Console) (part : Color × Char) : Console :=
  ((c.setColors part.1 c.paper).putChar part.2).setColors c.ink c.paper

/-- A text in a colour is drawn character by character, with `putIn`. -/
theorem writeIn_eq_feed (c : Console) (color : Color) (text : String) :
    c.writeIn color text = (text.toList.map (color, ·)).foldl putIn c := by
  unfold writeIn write
  dsimp only
  induction text.toList generalizing c with
  | nil => rfl
  | cons ch chs ih =>
      -- Going back to the colour before and choosing this one again changes nothing.
      have hagain : (c.putIn (color, ch)).setColors color c.paper =
          (c.setColors color c.paper).putChar ch :=
        setColors_of_colors (kept_colors.putChar (c.setColors color c.paper) ch)
      rw [List.map_cons, List.foldl_cons, List.foldl_cons, ← ih, ← hagain]
      rfl

end Console

namespace Script

/-! ### Scripts -/

/-- The characters of a script, each in its colour. -/
def characters (script : Script) : List (Color × Char) :=
  script.flatMap fun part => part.2.toList.map (part.1, ·)

/-- The characters of a script are those of its words, in order. -/
theorem map_snd_characters (script : Script) :
    script.characters.map Prod.snd = script.words.toList := by
  induction script with
  | nil => rfl
  | cons part script ih =>
      have hpart : (part.2.toList.map (part.1, ·)).map Prod.snd = part.2.toList := by
        simp [Function.comp_def]
      rw [characters] at ih ⊢
      rw [List.flatMap_cons, List.map_append, hpart, ih, words_cons, String.toList_append]

/-- An empty script draws nothing. -/
theorem draw_nil (c : Console) : draw [] c = c := rfl

/-- A script draws its first word, and then the others. -/
theorem draw_cons (part : Color × String) (script : Script) (c : Console) :
    draw (part :: script) c = draw script (c.writeIn part.1 part.2) := by
  have hpaper : ((c.setColors part.1 c.paper).write part.2).paper = c.paper :=
    Console.paper_write (c.setColors part.1 c.paper) part.2
  -- The next word chooses its own colour, so it does not matter that one was put back.
  cases script with
  | nil => rfl
  | cons next script =>
      unfold draw
      rw [List.foldl_cons, List.foldl_cons, List.foldl_cons, hpaper]
      rfl

/-- Two scripts in a row are drawn one after the other. -/
theorem draw_append (front back : Script) (c : Console) :
    draw (front ++ back) c = draw back (draw front c) := by
  induction front generalizing c with
  | nil => rfl
  | cons part front ih => rw [List.cons_append, draw_cons, draw_cons, ih]

/-- A script is drawn character by character, each with `putIn` in the colour of its word. -/
theorem draw_eq_feed (script : Script) (c : Console) :
    draw script c = script.characters.foldl Console.putIn c := by
  induction script generalizing c with
  | nil => rfl
  | cons part script ih =>
      rw [draw_cons, ih, Console.writeIn_eq_feed, characters, characters, List.flatMap_cons,
        List.foldl_append]

/-- A script keeps the shape of the screen. -/
theorem geometry_draw (script : Script) (c : Console) :
    (draw script c).geometry = c.geometry := by
  induction script generalizing c with
  | nil => rfl
  | cons part script ih => rw [draw_cons, ih, Console.geometry_writeIn]

/-- A script puts the colour that characters are drawn in back. -/
theorem ink_draw (script : Script) (c : Console) : (draw script c).ink = c.ink := rfl

/-! ### One more word -/

variable {c : Console}

/-- Behind a script a text in a colour is one more word. -/
theorem writeIn_draw (script : Script) (color : Color) (text : String) :
    (draw script c).writeIn color text = draw (script ++ [(color, text)]) c := by
  rw [draw_append, draw_cons, draw_nil]

/-- Behind a script a text is one more word, in the colour in force. -/
theorem write_draw (script : Script) (text : String) :
    (draw script c).write text = draw (script ++ [(c.ink, text)]) c := by
  rw [Console.write_eq_writeIn (ink_draw script c), writeIn_draw]

/-- Behind a script a status line is one more word, in the colour of the status. -/
theorem status_draw (script : Script) (status : Status) (text : String) :
    (draw script c).status status text =
      draw (script ++ [(status.color, status.label ++ text)]) c := by
  rw [Console.status_eq_writeIn, writeIn_draw]

/-- Behind a script a new line is a line feed, on a screen with room for a cell. -/
theorem newline_draw (hcolumns : 1 ≤ c.geometry.columns) (hrows : 1 ≤ c.geometry.rows)
    (script : Script) : (draw script c).newline = draw (script ++ [(c.ink, "\n")]) c := by
  rw [← geometry_draw script c] at hcolumns hrows
  rw [Console.newline_eq_write hcolumns hrows, write_draw]

/-- The colour that `rowInk` spells out for a kind of memory is the one that the page takes. -/
theorem rowInk_eq (kind : MemoryKind) : rowInk kind = rowColor kind := by
  cases kind <;> simp [rowInk, rowColor]

/-- Behind a script the rows of a memory map are a word each, if the colours are put back behind
them. -/
theorem memoryMapRows_draw (script : Script) (ranges : List MemoryRange) :
    ((draw script c).memoryMapRows ranges).setColors c.ink c.paper =
      draw (script ++
        ranges.map fun range => (rowInk range.kind, memoryMapRow range ++ "\n")) c := by
  simp only [rowInk_eq]
  rw [draw_append, draw.eq_def (ranges.map _), List.foldl_map]
  rfl

/-- Behind a script the memory map is drawn word by word, as `memoryMapScript` says. -/
theorem memoryMap_draw (script : Script) (info : BootInfo) :
    (draw script c).memoryMap info = draw (script ++ memoryMapScript c.ink info) c := by
  unfold Console.memoryMap memoryMapScript
  cases hmap : info.memoryMap with
  | none =>
      have hreport : info.memoryMapReport = "No memory map available!\n" := by
        simp [BootInfo.memoryMapReport, hmap, Text.unlines]
      dsimp only
      rw [status_draw, hreport]
      rfl
  | some map =>
      -- The colours that are put back behind the rows are the caller's.
      show ((((((draw script c).status _ _).write _).memoryMapRows _).setColors c.ink
        c.paper).write _) = _
      rw [status_draw, write_draw, memoryMapRows_draw, write_draw]
      simp only [Status.color, Status.label, String.reduceAppend, List.append_assoc,
        List.cons_append, List.nil_append]

end Script

namespace Console

variable {c : Console}

/-! ### The page -/

/-- The banner of the page reads as `bannerWords` spells it. -/
theorem bannerText_eq : bannerText = bannerWords := by
  decide +kernel

/-- The closing words are one word that starts with a new line. -/
theorem closing_draw (hcolumns : 1 ≤ c.geometry.columns) (hrows : 1 ≤ c.geometry.rows)
    (script : Script) :
    ((((script.draw c).newline.write "Early initialization finished.\n").write
      "Further subsystems are not yet implemented.\n").write "System halted.\n") =
        (script ++ [(c.ink, closingWords)]).draw c := by
  have hwords : closingWords = "\n" ++ ("Early initialization finished.\n" ++
      ("Further subsystems are not yet implemented.\n" ++ "System halted.\n")) := by
    decide
  rw [← Script.geometry_draw script c] at hcolumns hrows
  rw [newline_eq_write hcolumns hrows, ← write_append, ← write_append, ← write_append, ← hwords,
    Script.write_draw]

/-- On a screen with room for a cell, `bootReport` is drawing `bootScript`. -/
theorem bootReport_eq_draw (hcolumns : 1 ≤ c.geometry.columns) (hrows : 1 ≤ c.geometry.rows)
    (info : BootInfo) : c.bootReport info = (bootScript c.ink info).draw c := by
  have hstart : c.writeIn .cyan bannerText = Script.draw [(.cyan, bannerWords)] c := by
    rw [Script.draw_cons, Script.draw_nil, bannerText_eq]
  have hnewline := Script.newline_draw hcolumns hrows
  -- Each part adds its words to those of the parts in front of it.
  rw [bootReport, banner, hstart, Script.write_draw, Script.status_draw, Script.status_draw,
    hnewline, Script.memoryMap_draw, hnewline, Script.status_draw, closing_draw hcolumns hrows,
    bootScript]
  simp only [Status.color, Status.label, String.reduceAppend, List.append_assoc,
    List.cons_append, List.nil_append]

/-- Take a console on a screen of at least one cell, and any record. Then `bootReport` is feeding
the characters of `bootScript`, each in the colour that the script spells out, on the caller's
background. The characters are the banner, the starting line, both reports behind their labels, and
the closing words. The colours in force are put back, and in checked words the drawing gets to its
end. -/
theorem bootReport_eq_feed (c : Console) (hcolumns : 1 ≤ c.geometry.columns)
    (hrows : 1 ≤ c.geometry.rows) (info : BootInfo) :
    c.bootReport info = (bootScript c.ink info).characters.foldl putIn c ∧
      (bootScript c.ink info).characters.map Prod.snd =
        (bannerWords ++ "\n" ++ "[INFO] Kernel starting...\n\n" ++
          ("[INFO] " ++ info.systemReport ++ "\n") ++
          ((if info.memoryMap.isSome then "[INFO] " else "[WARN] ") ++
            info.memoryMapReport ++ "\n") ++
          ("[ OK ] Kernel initialization complete!\n" ++ closingWords)).toList ∧
      (c.bootReport info).colors = c.colors ∧
      (Bounded c →
        Checked.run c (bootInstructions c.ink c.paper info) = .ok (c.bootReport info)) := by
  have hdraw := bootReport_eq_draw hcolumns hrows info
  refine ⟨?_, ?_, ?_, ?_⟩
  · rw [hdraw, Script.draw_eq_feed]
  · rw [Script.map_snd_characters, words_bootScript]
  · rw [hdraw]
    rfl
  · intro hbounded
    rw [bootReport_eq_run]
    exact (safe_run _ hbounded).eq_ok

/-- Take a record of three ranges, one to be used, one reserved and one of the kernel, and a screen
of a single cell with black on red in force. Then `bootReport` feeds the banner in cyan, the labels
in the colours of their status, the three rows in green, red and yellow, and all other words in
black, and leaves black on red in force. -/
theorem bootReport_eq_feed_rows :
    let g : Geometry := ⟨8, 16, 16, .bits16, .bgrx, by decide, by decide, by decide, by decide⟩
    let canvas : Canvas g := ⟨Bytes.filled 256 0, by decide +kernel⟩
    let c : Console := { geometry := g, canvas, ink := .black, paper := .red }
    let region := (RegionWriter.empty.memoryMap 24
      [⟨0, 0x9F000, .usable, 0⟩, ⟨0x9F000, 0x61000, .reserved, 0⟩,
        ⟨0x100000, 0x200000, .kernel, 0⟩]).closedBytes
    let info := (BootInfo.unknown.reparse region).value.2
    1 ≤ c.geometry.columns ∧ 1 ≤ c.geometry.rows ∧
      c.bootReport info = (bootScript .black info).characters.foldl putIn c ∧
      (bootScript .black info).map Prod.fst =
        [⟨0x00, 0xFF, 0xFF⟩, ⟨0x00, 0x00, 0x00⟩, ⟨0xFF, 0xFF, 0xFF⟩, ⟨0xFF, 0xFF, 0xFF⟩,
          ⟨0x00, 0x00, 0x00⟩, ⟨0xFF, 0xFF, 0xFF⟩, ⟨0x00, 0x00, 0x00⟩, ⟨0x00, 0xFF, 0x00⟩,
          ⟨0xFF, 0x00, 0x00⟩, ⟨0xFF, 0xFF, 0x00⟩, ⟨0x00, 0x00, 0x00⟩, ⟨0x00, 0x00, 0x00⟩,
          ⟨0x00, 0xFF, 0x00⟩, ⟨0x00, 0x00, 0x00⟩] ∧
      (c.bootReport info).colors = (.black, .red) ∧
      Checked.run c (bootInstructions .black .red info) = .ok (c.bootReport info) := by
  intro g canvas c region info
  have hcolumns : 1 ≤ c.geometry.columns := by decide
  have hrows : 1 ≤ c.geometry.rows := by decide
  have hbounded : Bounded c := ⟨by decide, by decide⟩
  obtain ⟨hfeed, -, hcolors, hdrawn⟩ := bootReport_eq_feed c hcolumns hrows info
  exact ⟨hcolumns, hrows, hfeed, by decide +kernel, hcolors, hdrawn hbounded⟩

end Console

end EarlyBoot.Screen

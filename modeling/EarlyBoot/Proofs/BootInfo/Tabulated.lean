import EarlyBoot.BootInfo.Report
import EarlyBoot.Proofs.BootInfo.Reachable
import EarlyBoot.Proofs.Record.Entries
import EarlyBoot.Proofs.Text.Columns
import EarlyBoot.Proofs.Text.Wording

/-!
# `EarlyBoot.Proofs.BootInfo.Tabulated`: a memory map as a table

The table of a memory map is written for people, but whatever it shows can be read back from it.
It has a line for each entry, and in each line the same columns. No name and no number has a line
feed or a bar in it, and a number of 64 bits has sixteen hexadecimal digits at most, so that both
of its cells are eighteen characters wide whatever the number is.

How many entries there are is up to whoever wrote the tag. The table has as many as the tag
declares, because a memory map is only accepted if all of them are there (`MemoryMap.Complete`),
and because no record holds another memory map (`Parsed.complete_memoryMap`).

Main statements:

* `isRow_memoryMapRow` : each range is shown as a row of the table;
* `IsRow.shown_eq` : a row shows one base, one length and one name;
* `Parsed.complete_memoryMap` : a record that was parsed has all entries of its memory map;
* `memoryMapReport_tabulated` : the report is a table with all entries, from which they are read.
-/

set_option autoImplicit false

namespace EarlyBoot

open Text

/-! ### Ranges -/

/-- What is shown of a range: its base, its length and the name of its kind. -/
def MemoryRange.shown (range : MemoryRange) : UInt64 × UInt64 × String :=
  (range.base, range.length, Wording.memory range.kind)

/-- The name of a kind is a single line. -/
theorem MemoryKind.oneLine_name (kind : MemoryKind) : OneLine kind.name := by
  cases kind with
  | unknown code =>
      show OneLine "Unknown"
      decide
  | _ => decide

/-- There is no bar in the name of a kind, so a name does not add a column. -/
theorem MemoryKind.bar_not_mem_name (kind : MemoryKind) : '|' ∉ kind.name.toList := by
  cases kind with
  | unknown code =>
      show '|' ∉ "Unknown".toList
      decide
  | _ => decide

namespace BootInfo

/-! ### Rows -/

/-- The line is the row of a range in the table. -/
structure IsRow (range : MemoryRange) (line : String) : Prop where
  bars_length : (columns '|' line).length = 2
  /-- The bars stand where the titles have them. -/
  bars_eq : columns '|' line = columns '|' memoryMapColumns
  /-- The first cell reads as the base. -/
  base_eq : readHex? (cut line 2 18) = some range.base.toNat
  /-- The second cell reads as the length. -/
  length_eq : readHex? (cut line 23 18) = some range.length.toNat
  /-- The rest of the line is the name of the kind. -/
  name_eq : cut line 44 (line.length - 44) = Wording.memory range.kind

/-- The cell of a 64-bit number is eighteen characters wide, whatever the number. -/
theorem length_hex_toNat (n : UInt64) : (hex 16 n.toNat).length = 18 :=
  length_hex (by decide) n.toNat_lt

/-- There is no bar in the cell of a number. -/
theorem columns_hex (n : Nat) : columns '|' (hex 16 n) = [] :=
  columns_eq_nil (not_mem_hex (by decide) (by decide) 16 n)

/-- The bars of a row stand at columns 21 and 42, whatever the range. -/
theorem columns_memoryMapRow (range : MemoryRange) :
    columns '|' (memoryMapRow range) = [21, 42] := by
  have hindent : columns '|' "  " = [] := by decide
  have hbar : columns '|' " | " = [1] := by decide
  have hname : columns '|' range.kind.name = [] := columns_eq_nil range.kind.bar_not_mem_name
  simp only [memoryMapRow, MemoryRange.row, columns_append, columns_hex, hindent, hbar, hname,
    String.length_append, length_hex_toNat]
  rfl

/-- The first cell of a row is the base of the range. -/
theorem cut_base (range : MemoryRange) :
    cut (memoryMapRow range) 2 18 = hex 16 range.base.toNat := by
  rw [memoryMapRow, MemoryRange.row, String.append_assoc, String.append_assoc,
    String.append_assoc]
  exact cut_append rfl (length_hex_toNat range.base)

/-- The second cell of a row is the length of the range. -/
theorem cut_length (range : MemoryRange) :
    cut (memoryMapRow range) 23 18 = hex 16 range.length.toNat := by
  have hfront : ("  " ++ (hex 16 range.base.toNat ++ " | ")).length = 23 := by
    rw [String.length_append, String.length_append, length_hex_toNat]
    rfl
  rw [memoryMapRow, MemoryRange.row, String.append_assoc, String.append_assoc,
    ← String.append_assoc]
  exact cut_append hfront (length_hex_toNat range.length)

/-- The rest of a row is the name of the kind of the range. -/
theorem cut_name (range : MemoryRange) :
    cut (memoryMapRow range) 44 ((memoryMapRow range).length - 44) = range.kind.name := by
  have hfront : ("  " ++ (hex 16 range.base.toNat ++ " | " ++ hex 16 range.length.toNat ++
      " | ")).length = 44 := by
    simp only [String.length_append, length_hex_toNat]
    rfl
  have hrow : memoryMapRow range = "  " ++ (hex 16 range.base.toNat ++ " | " ++
      hex 16 range.length.toNat ++ " | ") ++ (range.kind.name ++ "") := by
    simp only [memoryMapRow, MemoryRange.row, String.append_empty, String.append_assoc]
  -- The name is whatever stands behind the two numbers, up to the end of the row.
  have hwidth : (memoryMapRow range).length - 44 = range.kind.name.length := by
    rw [hrow, String.append_empty, String.length_append, hfront, Nat.add_sub_cancel_left]
  rw [hwidth, hrow]
  exact cut_append hfront rfl

/-- The line that `memoryMapRow` writes for a range is a row of the table, in the sense of
`IsRow`. -/
theorem isRow_memoryMapRow (range : MemoryRange) : IsRow range (memoryMapRow range) where
  bars_length := by
    rw [columns_memoryMapRow]
    rfl
  bars_eq := by
    rw [columns_memoryMapRow]
    decide
  base_eq := by rw [cut_base, readHex?_hex]
  length_eq := by rw [cut_length, readHex?_hex]
  name_eq := (cut_name range).trans (Wording.memory_eq range.kind)

/-- A line that is the row of two ranges shows one base, one length and one name. -/
theorem IsRow.shown_eq {range other : MemoryRange} {line : String} (h : IsRow range line)
    (h' : IsRow other line) : range.shown = other.shown := by
  have hbase : range.base = other.base :=
    UInt64.toNat_inj.mp (Option.some.inj (h.base_eq.symm.trans h'.base_eq))
  have hlength : range.length = other.length :=
    UInt64.toNat_inj.mp (Option.some.inj (h.length_eq.symm.trans h'.length_eq))
  have hname : Wording.memory range.kind = Wording.memory other.kind :=
    h.name_eq.symm.trans h'.name_eq
  rw [MemoryRange.shown, MemoryRange.shown, hbase, hlength, hname]

/-- A row is a single line. -/
theorem oneLine_memoryMapRow (range : MemoryRange) : OneLine (memoryMapRow range) := by
  have hindent : OneLine "  " := by decide
  have hbar : OneLine " | " := by decide
  exact hindent.append (((((oneLine_hex 16 _).append hbar).append (oneLine_hex 16 _)).append
    hbar).append range.kind.oneLine_name)

/-! ### Tables -/

/-- The lines are the table of a memory map. -/
structure IsTable (map : MemoryMap) (lines : List String) : Prop where
  length_lines : lines.length = map.entryCount.toNat + 5
  heading : lines.take 4 = ["Memory Map:", reportRule, memoryMapColumns, reportRule]
  /-- As many entries as the memory map declares are there. -/
  length_entries : map.entries.length = map.entryCount.toNat
  /-- Each entry has its row below the heading. -/
  rows : ∀ i range, map.entries[i]? = some range →
    ∃ line, lines[i + 4]? = some line ∧ IsRow range line

/-- Every line of a table is a single line, so cutting the report at line feeds gives the lines
back. -/
theorem oneLine_of_mem_memoryMapLines {map : MemoryMap} {line : String}
    (h : line ∈ memoryMapLines map) : OneLine line := by
  have hheading : ∀ line ∈ ["Memory Map:", reportRule, memoryMapColumns, reportRule],
      OneLine line := by decide
  have hrule : OneLine reportRule := hheading reportRule (by simp)
  rw [memoryMapLines, List.mem_append, List.mem_append, List.mem_singleton, List.mem_map] at h
  rcases h with (h | ⟨range, -, rfl⟩) | rfl
  · exact hheading line h
  · exact oneLine_memoryMapRow range
  · exact hrule

/-- Take a memory map with all its entries. Then the lines of `memoryMapLines` are its table, in the
sense of `IsTable`. -/
theorem isTable_memoryMapLines {map : MemoryMap} (h : map.Complete) :
    IsTable map (memoryMapLines map) where
  length_lines := by rw [length_memoryMapLines, h.length_entries]
  heading := rfl
  length_entries := h.length_entries
  rows := by
    intro i range hrange
    refine ⟨memoryMapRow range, ?_, isRow_memoryMapRow range⟩
    have hlt : i < map.entries.length := (List.getElem?_eq_some_iff.mp hrange).1
    -- The rows stand between the four lines of the heading and the last rule.
    rw [memoryMapLines, List.append_assoc, List.getElem?_append_right (Nat.le_add_left 4 i)]
    show (map.entries.map memoryMapRow ++ [reportRule])[i]? = _
    rw [List.getElem?_append_left (by rwa [List.length_map]), List.getElem?_map, hrange]
    rfl

/-- Lines that are the table of two memory maps show the same bases, lengths and names in the same
order. -/
theorem IsTable.shown_eq {map other : MemoryMap} {lines : List String} (h : IsTable map lines)
    (h' : IsTable other lines) : map.entries.map MemoryRange.shown =
      other.entries.map MemoryRange.shown := by
  -- The number of lines tells the number of entries, and each line its own entry.
  have hlength : map.entries.length = other.entries.length := by
    have hlines := h.length_lines.symm.trans h'.length_lines
    rw [h.length_entries, h'.length_entries]
    omega
  refine List.ext_getElem (by rw [List.length_map, List.length_map, hlength]) ?_
  intro i hi hi'
  rw [List.length_map] at hi hi'
  obtain ⟨line, hline, hrow⟩ := h.rows i _ (List.getElem?_eq_getElem hi)
  obtain ⟨line', hline', hrow'⟩ := h'.rows i _ (List.getElem?_eq_getElem hi')
  cases hline.symm.trans hline'
  rw [List.getElem_map, List.getElem_map]
  exact hrow.shown_eq hrow'

/-! ### Reports -/

/-- A record that was reached by parsing holds only memory maps that `MemoryMap.decode` accepted, so
all of their entries are there. -/
theorem Parsed.complete_memoryMap {info : BootInfo} (h : Parsed info) {map : MemoryMap}
    (hmap : info.memoryMap = some map) : map.Complete := by
  obtain ⟨region?, hsound⟩ := h.sound
  obtain ⟨region, -, hbacked⟩ := hsound.memoryMap map hmap
  exact MemoryMap.complete_of_decode hbacked.decode_eq

/-- Take a record that was reached by parsing and holds a memory map. Then its report is the lines
of `memoryMapLines`, each closed by a line feed, and these lines are a table. -/
theorem Parsed.isTable {info : BootInfo} (h : Parsed info) {map : MemoryMap}
    (hmap : info.memoryMap = some map) :
    ClosedLines info.memoryMapReport (memoryMapLines map) ∧ IsTable map (memoryMapLines map) := by
  have hreport : info.memoryMapReport = unlines (memoryMapLines map) := by
    rw [memoryMapReport, hmap]
  rw [hreport]
  exact ⟨closedLines_unlines fun line => oneLine_of_mem_memoryMapLines,
    isTable_memoryMapLines (h.complete_memoryMap hmap)⟩

/-- Take a record that was reached by parsing and holds a memory map. Then `memoryMapReport` is a
table with one row per entry: bars below those of the column titles, base and length as hexadecimal
numbers that read back, and the name of the kind. Two records with the same report have memory maps
with as many entries and the same bases, lengths and names, in the same order. -/
theorem memoryMapReport_tabulated {info : BootInfo} (h : Parsed info) {map : MemoryMap}
    (hmap : info.memoryMap = some map) :
    (∃ lines, ClosedLines info.memoryMapReport lines ∧ IsTable map lines) ∧
      ∀ other, Parsed other → ∀ map', other.memoryMap = some map' →
        other.memoryMapReport = info.memoryMapReport →
          map'.entryCount = map.entryCount ∧
            map'.entries.map MemoryRange.shown = map.entries.map MemoryRange.shown := by
  obtain ⟨hclosed, htable⟩ := h.isTable hmap
  refine ⟨⟨_, hclosed, htable⟩, ?_⟩
  intro other h' map' hmap' hsame
  obtain ⟨hclosed', htable'⟩ := h'.isTable hmap'
  -- A text closes one list of lines only, so equal reports have equal tables.
  have hlines : memoryMapLines map' = memoryMapLines map := by
    rw [hsame] at hclosed'
    exact hclosed'.unique hclosed
  rw [hlines] at htable'
  have hcount : map'.entryCount.toNat = map.entryCount.toNat :=
    Nat.add_right_cancel (htable'.length_lines.symm.trans htable.length_lines)
  exact ⟨UInt32.toNat_inj.mp hcount, htable'.shown_eq htable⟩

/-- Two memory maps that look alike as tables, although their entries lie 24 and 32 bytes apart and
have different attributes and different codes without a meaning. `memoryMapReport_tabulated` gives
for both the same entries as shown. -/
theorem memoryMapReport_tabulated_lookalike :
    let packed := (RegionWriter.empty.memoryMap 24
      [⟨0, 0x9F000, .usable, 0⟩, ⟨0xFFFFFFFFFFFFFFFF, 0x10000, .unknown 77, 0⟩]).closedBytes
    let spread := (RegionWriter.empty.memoryMap 32
      [⟨0, 0x9F000, .usable, 1⟩, ⟨0xFFFFFFFFFFFFFFFF, 0x10000, .unknown 78, 0⟩]).closedBytes
    ∃ map map', (unknown.reparse packed).value.2.memoryMap = some map ∧
      (unknown.reparse spread).value.2.memoryMap = some map' ∧
      map.entrySize = 24 ∧ map'.entrySize = 32 ∧
      (∃ lines, ClosedLines (unknown.reparse packed).value.2.memoryMapReport lines ∧
        IsTable map lines) ∧
      map'.entryCount = map.entryCount ∧
        map'.entries.map MemoryRange.shown = map.entries.map MemoryRange.shown := by
  intro packed spread
  have hinfo : Parsed (unknown.reparse packed).value.2 := .again .unknown packed
  have hother : Parsed (unknown.reparse spread).value.2 := .again .unknown spread
  have hsize : (unknown.reparse packed).value.2.memoryMap.map MemoryMap.entrySize = some 24 := by
    decide +kernel
  have hsize' : (unknown.reparse spread).value.2.memoryMap.map MemoryMap.entrySize = some 32 := by
    decide +kernel
  -- Neither the distance of the entries nor the bits of their flags are shown.
  have hsame : (unknown.reparse spread).value.2.memoryMapReport =
      (unknown.reparse packed).value.2.memoryMapReport := by decide +kernel
  obtain ⟨map, hmap, h24⟩ := Option.map_eq_some_iff.mp hsize
  obtain ⟨map', hmap', h32⟩ := Option.map_eq_some_iff.mp hsize'
  obtain ⟨htable, hshown⟩ := memoryMapReport_tabulated hinfo hmap
  exact ⟨map, map', hmap, hmap', h24, h32, htable, hshown _ hother map' hmap' hsame⟩

end BootInfo

end EarlyBoot

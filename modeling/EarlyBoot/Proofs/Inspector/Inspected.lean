import EarlyBoot.Inspector.Command
import EarlyBoot.Proofs.Tag.Calls
import EarlyBoot.Proofs.Text.Lines
import EarlyBoot.Proofs.Text.Wording

/-!
# `EarlyBoot.Proofs.Inspector.Inspected`: what an inspection says

An inspection goes over a file three times. It reads the header, it walks over all tags, and
it parses the region, which looks at no more tags than a parser may. Each pass can fail by
itself, and what has been printed by then stays. `Inspected` says what comes of that for any
file, readable or not: which exit code, which error, and how much of the listing. The lines and
the errors are spelled out (`headerWords`, `tagWords`, `Wording`).

That the listing has one line for each tag takes two facts. The walk is not cut short, so
that call by call it hands out the tags that are listed, and no line has a line feed of its
own. The name of a tag's kind is a word from a table, or a number behind one.

The files are those of a `Disk`: reading a path tells contents or an error, writing one changes
the disk, and nothing is assumed of either.

Main statements:

* `oneLine_tagWords`, `oneLine_headerWords` : the lines of the listing are lines;
* `inspectOutput_inspected` : what an inspection prints of a file;
* `run_inspected` : what the tool does, for all arguments and disks.
-/

set_option autoImplicit false

namespace EarlyBoot

open Text

/-- The words for a kind are a single line. -/
theorem Wording.oneLine_kind (k : TagKind) : OneLine (Wording.kind k) := by
  cases k with
  | vendor code => exact OneLine.append (by decide) (oneLine_hex 4 code.toNat)
  | unknown code => exact OneLine.append (by decide) (oneLine_hex 4 code.toNat)
  | closing | commandLine | memoryMap | framebuffer | modules | acpiRoot | processors
  | bootTime | bootloader | kernelFile | efiSystemTable | ramdisk => decide

namespace Inspector

/-! ### The lines of the listing -/

/-- The line about a header: its magic number, its size and its version. -/
def headerWords (header : Header) : String :=
  "header: magic " ++ hex 8 header.magic.toNat ++ ", total size " ++
    decimal header.totalSize.toNat ++ ", version " ++ decimal header.version.toNat

/-- The line about a tag: its code, where it stands, what it is called, its size and its flags. -/
def tagWords (tag : RawTag) : String :=
  "  tag " ++ alignRight 6 (decimal tag.kind.code.toNat) ++ " @ " ++ hex 4 tag.position.offset ++
    ": " ++ Wording.kind tag.kind ++ " (" ++ decimal tag.size.toNat ++ " bytes, flags " ++
    hex 4 tag.flags.toNat ++ ")"

/-- The line about the header is the one that `headerWords` spells out. -/
theorem headerLine_eq (header : Header) : headerLine header = headerWords header := rfl

/-- The line about a tag is the one that `tagWords` spells out. -/
theorem tagLine_eq (tag : RawTag) : tagLine tag = tagWords tag := by
  -- By their equations the two lines would be evaluated, digit by digit.
  delta tagLine tagWords
  rw [Wording.kind_eq]

/-- What is said of the header is a single line. -/
theorem oneLine_headerWords (header : Header) : OneLine (headerWords header) :=
  ((((OneLine.append (by decide) (oneLine_hex 8 _)).append (by decide)).append
    (oneLine_decimal _)).append (by decide)).append (oneLine_decimal _)

/-- What is said of a tag is a single line. -/
theorem oneLine_tagWords (tag : RawTag) : OneLine (tagWords tag) := by
  have hcode := (oneLine_decimal tag.kind.code.toNat).alignRight 6
  have hplace := oneLine_hex 4 tag.position.offset
  have hflags := oneLine_hex 4 tag.flags.toNat
  exact (((((((((OneLine.append (by decide) hcode).append (by decide)).append hplace).append
    (by decide)).append (Wording.oneLine_kind tag.kind)).append (by decide)).append
    (oneLine_decimal _)).append (by decide)).append hflags).append (by decide)

/-- The listing of a region is the line of `headerWords`, one line of `tagWords` for each tag that a
walk hands out, in order, and an empty line. -/
theorem exists_listing (region : Region) :
    ∃ tags : List RawTag, (∀ n, tags[n]? = region.walk.call n) ∧
      (∀ line ∈ headerWords region.header :: tags.map tagWords, OneLine line) ∧
      listing region = unlines (headerWords region.header :: tags.map tagWords ++ [""]) := by
  refine ⟨region.tags, region.getElem?_tags, List.forall_mem_cons.mpr ⟨?_, ?_⟩, ?_⟩
  · exact oneLine_headerWords region.header
  · intro line hline
    obtain ⟨tag, -, rfl⟩ := List.mem_map.mp hline
    exact oneLine_tagWords tag
  · rw [listing, headerLine_eq, funext tagLine_eq]

/-- A listing is never empty, so it can be told whether a region was listed. -/
theorem listing_append_ne_empty (region : Region) (text : String) :
    listing region ++ text ≠ "" := by
  intro h
  have hempty := String.toList_eq_nil_iff.mpr (String.append_eq_empty_iff.mp h).1
  simp [listing, unlines, String.toList_join] at hempty

/-! ### One file -/

/-- The error of the first pass over a file that fails, in words; what keeps it from being read
is for the disk to say. A header that is refused is named by its own error, not by that of a
parser. -/
def failure? : Except String ByteArray → Option String
  | .error message => some message
  | .ok contents   =>
      match Region.read contents .standard with
      | .error error => some (Wording.header error)
      | .ok _        =>
          match (BootInfo.parse contents .standard).value with
          | .error error => some (Wording.parse error)
          | .ok _        => none

/-- What an inspection says of a file. -/
structure Inspected (file : Except String ByteArray) (output : Output) : Prop where
  code_le : output.code ≤ 1
  /-- All goes well exactly if the contents are parsed. -/
  code_eq_zero_iff : output.code = 0 ↔
    ∃ contents info, file = .ok contents ∧ (BootInfo.parse contents .standard).value = .ok info
  stderr_eq : output.stderr =
    match failure? file with
    | none         => ""
    | some message => "bootinfo: " ++ message ++ "\n"
  /-- Nothing is listed of a file that is not read or not a region. -/
  stdout_eq_empty_iff : output.stdout = "" ↔
    ∀ contents region, file = .ok contents → Region.read contents .standard ≠ .ok region
  /-- A region is listed in full: its header, whatever a walk hands out, and an empty line.
  The reports follow if it is parsed. -/
  stdout_eq : ∀ contents region, file = .ok contents →
    Region.read contents .standard = .ok region →
    ∃ tags : List RawTag, (∀ n, tags[n]? = region.walk.call n) ∧
      (∀ line ∈ headerWords region.header :: tags.map tagWords, OneLine line) ∧
      output.stdout = unlines (headerWords region.header :: tags.map tagWords ++ [""]) ++
        match (BootInfo.parse contents .standard).value with
        | .error _ => ""
        | .ok info => info.systemReport ++ "\n" ++ info.memoryMapReport

/-- No pass fails exactly if the file can be read and `parse` accepts its contents. -/
theorem failure?_eq_none_iff {file : Except String ByteArray} :
    failure? file = none ↔ ∃ contents info, file = .ok contents ∧
      (BootInfo.parse contents .standard).value = .ok info := by
  cases file with
  | error error => simp [failure?]
  | ok contents =>
      cases hread : Region.read contents .standard with
      | error error => simp [failure?, hread, BootInfo.parse_of_header_error hread]
      | ok region =>
          cases hparse : (BootInfo.parse contents .standard).value with
          | error error => simp [failure?, hread, hparse]
          | ok info => simp [failure?, hread, hparse]

/-- The pass that fails decides on the exit code, 0 or 1, and on the one line that goes to the error
output. -/
theorem inspectOutput_failure (file : Except String ByteArray) :
    (inspectOutput file).code =
        (match failure? file with
        | none   => 0
        | some _ => 1) ∧
      (inspectOutput file).stderr =
        match failure? file with
        | none         => ""
        | some message => "bootinfo: " ++ message ++ "\n" := by
  cases file with
  | error error => exact ⟨rfl, rfl⟩
  | ok contents =>
      simp only [inspectOutput, failure?, Wording.header_eq, Wording.parse_eq]
      cases Region.read contents .standard with
      | error error => exact ⟨rfl, rfl⟩
      | ok region => cases (BootInfo.parse contents .standard).value <;> exact ⟨rfl, rfl⟩

/-- Take a file that cannot be read, or contents whose header is refused. Then nothing is listed. -/
theorem stdout_inspectOutput_of_no_region {file : Except String ByteArray}
    (h : ∀ contents region, file = .ok contents → Region.read contents .standard ≠ .ok region) :
    (inspectOutput file).stdout = "" := by
  cases file with
  | error error => rfl
  | ok contents =>
      cases hread : Region.read contents .standard with
      | error error =>
          simp only [inspectOutput, hread]
          rfl
      | ok region => exact absurd hread (h contents region rfl)

/-- Take contents with an accepted header. Then the listing is printed before the region is parsed,
and both reports follow if `parse` accepts it. -/
theorem stdout_inspectOutput_of_region {contents : ByteArray} {region : Region}
    (h : Region.read contents .standard = .ok region) :
    (inspectOutput (.ok contents)).stdout =
      listing region ++
        match (BootInfo.parse contents .standard).value with
        | .error _ => ""
        | .ok info => info.systemReport ++ "\n" ++ info.memoryMapReport := by
  simp only [inspectOutput, h]
  cases (BootInfo.parse contents .standard).value with
  | error error => exact String.append_empty.symm
  | ok info => rfl

/-- Whatever the outcome of reading the file is, `inspectOutput` prints what `Inspected` says of
it. -/
theorem inspectOutput_inspected (file : Except String ByteArray) :
    Inspected file (inspectOutput file) := by
  obtain ⟨hcode, hstderr⟩ := inspectOutput_failure file
  refine ⟨?_, ?_, hstderr, ⟨?_, stdout_inspectOutput_of_no_region⟩, ?_⟩
  · rw [hcode]
    cases failure? file <;> simp
  · rw [hcode, ← failure?_eq_none_iff]
    cases failure? file <;> simp
  · rintro hempty contents region rfl hread
    rw [stdout_inspectOutput_of_region hread] at hempty
    exact listing_append_ne_empty region _ hempty
  · rintro contents region rfl hread
    obtain ⟨tags, hcalls, hlines, hlisting⟩ := exists_listing region
    exact ⟨tags, hcalls, hlines, by rw [stdout_inspectOutput_of_region hread, hlisting]⟩

/-! ### All arguments -/

/-- The arguments start with the name of a command and one more argument. -/
def Asks (args : List String) : Prop :=
  ∃ command argument rest, args = command :: argument :: rest ∧
    (command = "gen" ∨ command = "inspect")

/-- Arguments are answered by the usage exactly if they do not ask for a command. -/
theorem ofArgs_eq_usage_iff {args : List String} :
    Command.ofArgs args = .usage ↔ ¬ Asks args := by
  constructor
  · rintro husage ⟨command, argument, rest, rfl, rfl | rfl⟩ <;> cases husage
  · intro hasks
    unfold Command.ofArgs
    split
    · exact absurd ⟨_, _, _, rfl, .inl rfl⟩ hasks
    · exact absurd ⟨_, _, _, rfl, .inr rfl⟩ hasks
    · rfl

/-- A disk that the tool is run on, in any of its states. What is read depends on the state and
leaves it as it is; what is written changes it. -/
structure Disk (World : Type) where
  read : World → String → Except String ByteArray
  write : World → String → ByteArray → Except String Unit × World

/-- The files on a disk. -/
def Disk.files {World : Type} (disk : Disk World) : Files (StateM World) where
  read path := fun world => (disk.read world path, world)
  write path contents := fun world => disk.write world path contents

variable {World : Type}

/-- Take arguments that ask for a command. Then `run` ends with 0 or 1, whatever is on the disk:
it does not end like arguments that ask for nothing. -/
theorem code_run_le {args : List String} (h : Command.ofArgs args ≠ .usage) (disk : Disk World)
    (world : World) : ((run disk.files args).run world).1.code ≤ 1 := by
  unfold run
  split
  · rename_i husage
    exact absurd husage h
  · exact (inspectOutput_inspected _).code_le
  · rename_i out _
    show (generateOutput out (disk.write world out sampleRegion).1).code ≤ 1
    cases (disk.write world out sampleRegion).1 with
    | error message => exact Nat.le_refl 1
    | ok => exact Nat.zero_le 1

/-- What the tool does, on any disk and in any world. Arguments that ask for no command are answered
by the usage and exit code 2, and no others are. An inspection reads the one file it is given, says
what `Inspected` says of the outcome, whether or not the file can be read, and leaves the world as
it was. -/
theorem run_inspected (disk : Disk World) (world : World) (args : List String) :
    (((run disk.files args).run world).1.code = 2 ↔ ¬ Asks args) ∧
    (¬ Asks args → (run disk.files args).run world =
      ({ code := 2
         stdout := ""
         stderr := "usage: bootinfo gen <out> | bootinfo inspect <file>\n" }, world)) ∧
    ∀ file rest, args = "inspect" :: file :: rest →
      Inspected (disk.read world file) ((run disk.files args).run world).1 ∧
        ((run disk.files args).run world).2 = world := by
  have husage (h : ¬ Asks args) : (run disk.files args).run world = (.usage, world) := by
    rw [run, ofArgs_eq_usage_iff.mpr h]
    rfl
  refine ⟨⟨?_, ?_⟩, husage, ?_⟩
  · intro hcode hasks
    have hle := code_run_le (fun h => ofArgs_eq_usage_iff.mp h hasks) disk world
    omega
  · intro h
    rw [husage h]
    rfl
  · rintro file rest rfl
    have hrun : (run disk.files ("inspect" :: file :: rest)).run world =
        (inspectOutput (disk.read world file), world) := by
      rw [run_inspect rfl]
      rfl
    rw [hrun]
    exact ⟨inspectOutput_inspected (disk.read world file), rfl⟩

/-- Take a disk with one file on it, a region with a vendor's tag and no memory map. Then, by
`run_inspected`, an inspection of that file lists both tags before it fails, and one of a path that
leads to nothing says why and prints nothing else. -/
theorem run_inspected_without_map :
    let region := (RegionWriter.empty.rawTag 0x8001 7 (Bytes.filled 3 0)).closedBytes
    let disk : Disk (List (String × ByteArray)) := {
      read := fun files path =>
        match files.lookup path with
        | some contents => .ok contents
        | none          => .error "No such file or directory (os error 2)"
      write := fun files path contents => (.ok (), (path, contents) :: files) }
    let files := [("in.bin", region)]
    let found := (run disk.files ["inspect", "in.bin", "more"]).run files
    let missing := (run disk.files ["inspect", "in"]).run files
    Inspected (disk.read files "in.bin") found.1 ∧ found.2 = files ∧
      found.1 = {
        code := 1
        stdout :=
          "header: magic 0x44424f4b, total size 40, version 1\n" ++
            "  tag  32769 @ 0x0010: vendor 0x8001 (11 bytes, flags 0x0007)\n" ++
            "  tag      0 @ 0x0020: end (8 bytes, flags 0x0000)\n\n"
        stderr := "bootinfo: no valid memory map tag\n" } ∧
      Inspected (disk.read files "in") missing.1 ∧ missing.2 = files ∧
      missing.1 = {
        code := 1
        stderr := "bootinfo: No such file or directory (os error 2)\n" } := by
  intro region disk files found missing
  obtain ⟨-, -, hfound⟩ := run_inspected disk files ["inspect", "in.bin", "more"]
  obtain ⟨-, -, hmissing⟩ := run_inspected disk files ["inspect", "in"]
  obtain ⟨hsaid, hkept⟩ := hfound "in.bin" ["more"] rfl
  obtain ⟨hsaid', hkept'⟩ := hmissing "in" [] rfl
  exact ⟨hsaid, hkept, by decide +kernel, hsaid', hkept', by decide +kernel⟩

end Inspector

end EarlyBoot

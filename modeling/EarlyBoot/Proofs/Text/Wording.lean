import EarlyBoot.Startup.Handoff

/-!
# `EarlyBoot.Proofs.Text.Wording`: the words that are promised

What is logged about a region, and what a tool prints about it, is read by people and matched by
scripts: the names of the kinds of tags and of memory, the reasons why a tag is passed over, and
the errors of a header, of a region and of a start. An account of a log or of a listing that took
these words from the functions it is about would hold of any words. So they are written out here,
and the functions are held against them. The numbers in them are written by `Text.decimal` and
`Text.hex`.

Main statements:

* `kind_eq`, `rejection_eq` : the words about a tag;
* `memory_eq` : the words about a range of memory;
* `header_eq`, `parse_eq` : the words about a header and about a region;
* `console_eq`, `boot_eq` : the words about a framebuffer and about a start.
-/

set_option autoImplicit false

namespace EarlyBoot.Wording

open Text (decimal hex)

/-- What a kind of tag is called. A code without a meaning is called by its number. -/
def kind : TagKind → String
  | .closing        => "end"
  | .commandLine    => "command line"
  | .memoryMap      => "memory map"
  | .framebuffer    => "framebuffer"
  | .modules        => "modules"
  | .acpiRoot       => "ACPI RSDP"
  | .processors     => "SMP"
  | .bootTime       => "boot time"
  | .bootloader     => "bootloader"
  | .kernelFile     => "kernel file"
  | .efiSystemTable => "EFI system table"
  | .ramdisk        => "initrd"
  | .vendor code    => "vendor " ++ hex 4 code.toNat
  | .unknown code   => "unknown " ++ hex 4 code.toNat

/-- What a kind of memory is called. All codes without a meaning are called alike. -/
def memory : MemoryKind → String
  | .reserved        => "Reserved"
  | .usable          => "Usable"
  | .acpiReclaimable => "ACPI Reclaimable"
  | .acpiNvs         => "ACPI NVS"
  | .bad             => "Bad Memory"
  | .bootloader      => "Bootloader"
  | .kernel          => "Kernel"
  | .framebuffer     => "Framebuffer"
  | .ramdisk         => "InitRD"
  | .modules         => "Modules"
  | .unknown _       => "Unknown"

/-- What a required field is called. -/
def field : RequiredField → String
  | .rsdpAddress        => "RSDP address"
  | .framebufferWidth   => "framebuffer width"
  | .framebufferHeight  => "framebuffer height"
  | .framebufferDepth   => "framebuffer bpp"
  | .framebufferAddress => "framebuffer address"
  | .ramdiskStart       => "initrd start"
  | .ramdiskLength      => "initrd length"
  | .processorCount     => "CPU count"

/-- Why a tag is passed over. -/
def rejection : TagRejection → String
  | .tooSmall size min =>
      "tag of " ++ decimal size.toNat ++ " bytes is smaller than the " ++ decimal min ++
        " bytes required"
  | .entrySizeTooSmall entrySize =>
      "memory map entry size " ++ decimal entrySize.toNat ++ " is smaller than an entry"
  | .entriesOutOfBounds entrySize count =>
      decimal count.toNat ++ " memory map entries of " ++ decimal entrySize.toNat ++
        " bytes do not fit the tag"
  | .zero required => field required ++ " must not be zero"
  | .unterminated => "text is not NUL-terminated within the tag"

/-- Why a header is refused. -/
def header : HeaderError → String
  | .tooShort => "region is shorter than the 16-byte header"
  | .badMagic magic => "bad magic " ++ hex 8 magic.toNat
  | .badTotalSize size => "declared total size " ++ decimal size.toNat ++ " is out of range"
  | .unsupportedVersion version =>
      "protocol version " ++ decimal version.toNat ++ " is older than supported"
  | .reservedNotZero reserved =>
      "reserved header field is " ++ hex 0 reserved.toNat ++ ", expected zero"
  | .truncated size available =>
      "header declares " ++ decimal size.toNat ++ " bytes but only " ++ decimal available ++
        " are readable"

/-- Why a region is of no use. -/
def parse : ParseError → String
  | .header error => "invalid boot info header: " ++ header error
  | .tooManyTags maxTags => "more than " ++ decimal maxTags.toNat ++ " tags in boot info region"
  | .missingEndTag => "tag list ended without an end tag"
  | .missingMemoryMap => "no valid memory map tag"

/-- Why a framebuffer cannot be drawn on. -/
def console : Screen.ConsoleError → String
  | .unsupportedDepth bits =>
      "unsupported color depth of " ++ decimal bits.toNat ++ " bits per pixel"
  | .noPixels width height =>
      "framebuffer of " ++ decimal width.toNat ++ "x" ++ decimal height.toNat ++
        " pixels has no visible area"
  | .pitchTooSmall pitch rowBytes =>
      "pitch of " ++ decimal pitch.toNat ++ " bytes is shorter than a " ++ decimal rowBytes ++
        "-byte row"
  | .tooLarge => "framebuffer dimensions overflow the address space"
  | .addressOutOfRange address =>
      "framebuffer address " ++ hex 0 address.toNat ++ " is not addressable"
  | .bufferTooSmall length needed =>
      "pixel buffer of " ++ decimal length ++ " bytes is smaller than the " ++ decimal needed ++
        " bytes required"

/-- Why a start fails. -/
def boot : Startup.BootError → String
  | .nullPointer => "bootloader passed a null boot info pointer"
  | .parse error => "boot info rejected: " ++ parse error
  | .noFramebuffer => "boot info has no usable framebuffer"
  | .console error => "cannot drive the framebuffer: " ++ console error

/-- A kind of tag goes by the name that is promised: `TagKind.name` is `Wording.kind`, for the
kinds with a meaning and for any other code. -/
theorem kind_eq (k : TagKind) : k.name = kind k := by
  cases k <;> rfl

/-- A kind of memory goes by the name that is promised: `MemoryKind.name` is `Wording.memory`. -/
theorem memory_eq (k : MemoryKind) : k.name = memory k := by
  cases k <;> rfl

/-- A required field goes by the name that is promised: `RequiredField.name` is
`Wording.field`. -/
theorem field_eq (required : RequiredField) : required.name = field required := by
  cases required <;> rfl

/-- A tag is passed over for the reason that is promised, with the numbers that go with it:
`TagRejection.message` is `Wording.rejection`. -/
theorem rejection_eq (reason : TagRejection) : reason.message = rejection reason := by
  cases reason with
  | zero required => exact congrArg (· ++ " must not be zero") (field_eq required)
  | tooSmall | entrySizeTooSmall | entriesOutOfBounds | unterminated => rfl

/-- A refused header is named by the words that are promised: `HeaderError.message` is
`Wording.header`. -/
theorem header_eq (error : HeaderError) : error.message = header error := by
  cases error <;> rfl

/-- A region that is of no use is named by the words that are promised: `ParseError.message` is
`Wording.parse`, which quotes those of a refused header. -/
theorem parse_eq (error : ParseError) : error.message = parse error := by
  cases error with
  | header error => exact congrArg ("invalid boot info header: " ++ ·) (header_eq error)
  | tooManyTags | missingEndTag | missingMemoryMap => rfl

/-- A framebuffer that cannot be drawn on is named by the words that are promised:
`ConsoleError.message` is `Wording.console`. -/
theorem console_eq (error : Screen.ConsoleError) : error.message = console error := by
  cases error <;> rfl

/-- A start that fails is named by the words that are promised: `BootError.message` is
`Wording.boot`, which quotes those of a refused region or of a framebuffer. -/
theorem boot_eq (error : Startup.BootError) : error.message = boot error := by
  cases error with
  | parse error => exact congrArg ("boot info rejected: " ++ ·) (parse_eq error)
  | console error => exact congrArg ("cannot drive the framebuffer: " ++ ·) (console_eq error)
  | nullPointer | noFramebuffer => rfl

end EarlyBoot.Wording

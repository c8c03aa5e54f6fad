import EarlyBoot.Proofs.Record.Decoding
import EarlyBoot.Record.AcpiRoot
import EarlyBoot.Record.Framebuffer
import EarlyBoot.Record.MemoryMap
import EarlyBoot.Record.Processors
import EarlyBoot.Record.Ramdisk
import EarlyBoot.Record.Text

/-!
# `EarlyBoot.Proofs.Record.Unplaced`: records do not depend on where their tags are

A record keeps the tag that it was decoded from, and with it the place of that tag. No
decoder looks at the place: it reads the bytes of the tag and its declared size. So the
same tag in another place is refused for the same reason, or accepted as the same record
but for the place (`unplaced`).

Main statement:

* `MemoryMap.decode_unplaced` and its siblings : a tag without its place is decoded to the
  record without its place.
-/

set_option autoImplicit false

namespace EarlyBoot

/-! ### Tags and their fields -/

/-- The tag with its place forgotten. -/
def RawTag.unplaced (tag : RawTag) : RawTag :=
  { tag with position := { tag.position with offset := 0 } }

def Fields.unplaced (f : Fields) : Fields :=
  { f with tag := f.tag.unplaced }

/-- The size check of `fields` does not look at the place of a tag. -/
theorem RawTag.fields_unplaced (tag : RawTag) (min : Nat) :
    tag.unplaced.fields min = (tag.fields min).map Fields.unplaced := by
  rcases Nat.lt_or_ge tag.size.toNat min with hlt | hle
  · rw [fields_of_lt hlt]
    exact fields_of_lt hlt
  · rw [fields_of_le hle]
    exact fields_of_le hle

/-! ### Records -/

def MemoryMap.unplaced (map : MemoryMap) : MemoryMap :=
  { map with tag := map.tag.unplaced }

def Framebuffer.unplaced (fb : Framebuffer) : Framebuffer :=
  { fb with tag := fb.tag.unplaced }

def BootText.unplaced (text : BootText) : BootText :=
  { text with tag := text.tag.unplaced }

def AcpiRoot.unplaced (root : AcpiRoot) : AcpiRoot :=
  { root with tag := root.tag.unplaced }

def Processors.unplaced (processors : Processors) : Processors :=
  { processors with tag := processors.tag.unplaced }

def Ramdisk.unplaced (ramdisk : Ramdisk) : Ramdisk :=
  { ramdisk with tag := ramdisk.tag.unplaced }

/-! ### The decoders

All but that of texts start from the fields of the tag. Behind that, both sides take the
same steps, and the tag is only put into the record at the last one. -/

/-- The decoder of memory maps does not look at the place of a tag: `decode` commutes with
`unplaced`. -/
theorem MemoryMap.decode_unplaced (tag : RawTag) :
    decode tag.unplaced = (decode tag).map unplaced := by
  rw [decode, decode, RawTag.fields_unplaced, bind_map]
  simp only [map_bind, apply_ite (Except.map unplaced)]
  rfl

/-- The decoder of framebuffers does not look at the place of a tag. -/
theorem Framebuffer.decode_unplaced (tag : RawTag) :
    decode tag.unplaced = (decode tag).map unplaced := by
  rw [decode, decode, RawTag.fields_unplaced, bind_map]
  simp only [map_bind]
  rfl

/-- The decoder of texts does not look at the place of a tag. -/
theorem BootText.decode_unplaced (tag : RawTag) :
    decode tag.unplaced = (decode tag).map unplaced := by
  have hsize : tag.unplaced.requireSize minTagSize = tag.requireSize minTagSize := rfl
  have hpayload : tag.unplaced.payload = tag.payload := rfl
  rw [decode, decode, hsize, hpayload, map_bind]
  cases tag.payload.data.findIdx? (· == 0) with
  | none => rfl
  | some length => rfl

/-- The decoder of the ACPI root does not look at the place of a tag. -/
theorem AcpiRoot.decode_unplaced (tag : RawTag) :
    decode tag.unplaced = (decode tag).map unplaced := by
  rw [decode, decode, RawTag.fields_unplaced, bind_map]
  simp only [map_bind]
  rfl

/-- The decoder of processors does not look at the place of a tag. -/
theorem Processors.decode_unplaced (tag : RawTag) :
    decode tag.unplaced = (decode tag).map unplaced := by
  rw [decode, decode, RawTag.fields_unplaced, bind_map]
  simp only [map_bind]
  rfl

/-- The decoder of ramdisks does not look at the place of a tag. -/
theorem Ramdisk.decode_unplaced (tag : RawTag) :
    decode tag.unplaced = (decode tag).map unplaced := by
  rw [decode, decode, RawTag.fields_unplaced, bind_map]
  simp only [map_bind]
  rfl

end EarlyBoot

import EarlyBoot.BootInfo.Parse
import EarlyBoot.Bytes.Splice
import EarlyBoot.Screen.Geometry

/-!
# `EarlyBoot.Startup.Handoff`: from a pointer to what is known

The bootloader leaves a pointer to a region whose size only the region itself
tells. As many bytes are borrowed as the header states, if that is a size that a
region may have, and otherwise just the header, which is then refused for the
right reason. Without a framebuffer there is nothing to report on, so a region
that has none is of no use.

Main statement:

* `size_borrow` : as many bytes are borrowed as asked for.
-/

set_option autoImplicit false

namespace EarlyBoot.Startup

open Screen (ConsoleError)

/-- Why the machine cannot start. -/
inductive BootError where
  | nullPointer
  | parse (error : ParseError)
  | noFramebuffer
  | console (error : ConsoleError)
  deriving DecidableEq, Repr

def BootError.message : BootError → String
  | .nullPointer => "bootloader passed a null boot info pointer"
  | .parse error => "boot info rejected: " ++ error.message
  | .noFramebuffer => "boot info has no usable framebuffer"
  | .console error => "cannot drive the framebuffer: " ++ error.message

/-- How many bytes to borrow for a region that starts like `bytes`. -/
def statedLength (bytes : ByteArray) : Nat :=
  match Bytes.uint32? bytes 4 with
  | some size =>
      if minTotalSize ≤ size.toNat ∧ size ≤ Limits.standard.maxTotalSize then
        size.toNat
      else
        headerSize
  | none => headerSize

/-- The first `length` bytes of a memory that starts with `memory` and is zero behind it. -/
def borrow (memory : ByteArray) (length : Nat) : ByteArray :=
  memory.extract 0 length ++ Bytes.filled (length - memory.size) 0

/-- The region behind a pointer, cut to the size that its header states. -/
def borrowRegion (pointer : Option ByteArray) : Except BootError ByteArray :=
  match pointer with
  | none        => .error .nullPointer
  | some memory => .ok (borrow memory (statedLength (borrow memory headerSize)))

/-- The part that speaks while a region is loaded. -/
def loaderTarget : String := "kernel::boot"

/-- The record of a loaded region. -/
def loadRecord (bytes : ByteArray) (info : BootInfo) : Log.Record where
  level := .debug
  target := loaderTarget
  message :=
    "boot info: " ++ Text.decimal bytes.size ++ " bytes, " ++
      Text.decimal info.usableMebibytes.toNat ++ " MiB usable, " ++
      Text.decimal info.processorCount.toNat ++ " CPUs"

/-- Parses a region and asks for a framebuffer. -/
def load (bytes : ByteArray) : Log.Logged (Except BootError BootInfo) :=
  match BootInfo.parse bytes .standard with
  | ⟨.error error, records⟩ => ⟨.error (.parse error), records⟩
  | ⟨.ok info, records⟩     =>
      let records := records.push (loadRecord bytes info)
      if info.framebuffer.isSome then ⟨.ok info, records⟩ else ⟨.error .noFramebuffer, records⟩

/-- The loader borrows as many bytes as it asks for, whatever the memory holds. -/
@[simp]
theorem size_borrow (memory : ByteArray) (length : Nat) : (borrow memory length).size = length := by
  simp only [borrow, ByteArray.size_append, ByteArray.size_extract, Bytes.size_filled]
  omega

end EarlyBoot.Startup

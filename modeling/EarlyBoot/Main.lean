import EarlyBoot.Inspector.Command

/-!
# `EarlyBoot.Main`: the tool on the command line

The tool is run on the files of the operating system, and what it says is printed.
-/

set_option autoImplicit false

namespace EarlyBoot

open Inspector

/-- An error that the operating system describes, with its number. -/
def osErrorMessage (code : UInt32) (description : String) : String :=
  description ++ " (os error " ++ Text.decimal code.toNat ++ ")"

/-- An error of reading or writing a file in words. -/
def ioMessage : IO.Error → String
  | .noFileOrDirectory _ code description
  | .inappropriateType _ code description
  | .invalidArgument _ code description
  | .permissionDenied _ code description
  | .resourceExhausted _ code description
  | .noSuchThing _ code description
  | .resourceBusy code description
  | .unsupportedOperation code description
  | .hardwareFault code description
  | .otherError code description => osErrorMessage code description
  | error                        => toString error

/-- The outcome of an action, its error in words. -/
def attempt {α : Type} (action : IO α) : IO (Except String α) := do
  try
    return .ok (← action)
  catch error =>
    return .error (ioMessage error)

def readFile (file : String) : IO ByteArray := do
  let handle ← IO.FS.Handle.mk file .read
  handle.readBinToEnd

/-- Writes a file, to its last byte. -/
def writeFile (file : String) (contents : ByteArray) : IO Unit := do
  let handle ← IO.FS.Handle.mk file .write
  handle.write contents
  handle.flush

/-- The files of the operating system. -/
def systemFiles : Files IO where
  read file := attempt (readFile file)
  write file contents := attempt (writeFile file contents)

end EarlyBoot

open EarlyBoot in
def main (args : List String) : IO UInt32 := do
  let output ← Inspector.run systemFiles args
  (← IO.getStdout).putStr output.stdout
  (← IO.getStderr).putStr output.stderr
  return UInt32.ofNat output.code

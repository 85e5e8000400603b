import BoundedZlib.CommandLine.Arguments

/-!
# The program

The outermost layer: files on disk as storage, and the standard streams.
-/

namespace BoundedZlib

namespace Program

def knownErrors : List SystemError :=
  [ .notFound, .alreadyExists, .notDirectory, .isDirectory, .nameTooLong,
    ⟨1, "Operation not permitted"⟩, ⟨13, "Permission denied"⟩, ⟨22, "Invalid argument"⟩,
    ⟨28, "No space left on device"⟩, ⟨30, "Read-only file system"⟩,
    ⟨40, "Too many levels of symbolic links"⟩ ]

/-- The error with a code, which some calls give as a negative number of 32 bits. -/
def errorOfCode (code : UInt32) (text : String) : SystemError :=
  let code := if code.toNat < 1 <<< 31 then code.toNat else (1 <<< 32) - code.toNat
  (knownErrors.find? (·.code == code)).getD ⟨code, text⟩

def systemError : IO.Error → SystemError
  | .noFileOrDirectory _ code text => errorOfCode code text
  | .alreadyExists _ code text => errorOfCode code text
  | .inappropriateType _ code text => errorOfCode code text
  | .permissionDenied _ code text => errorOfCode code text
  | .resourceExhausted _ code text => errorOfCode code text
  | .invalidArgument _ code text => errorOfCode code text
  | .noSuchThing _ code text => errorOfCode code text
  | .unsupportedOperation code text => errorOfCode code text
  | .resourceBusy code text => errorOfCode code text
  | .illegalOperation code text => errorOfCode code text
  | .otherError code text => errorOfCode code text
  | error => ⟨5, error.toString⟩

def caught {α : Type} (action : IO α) : IO (Except SystemError α) := do
  match ← action.toBaseIO with
  | .ok value => return .ok value
  | .error error => return .error (systemError error)

def readFile (path : Path) : IO (Except SystemError Bytes) :=
  caught do
    return (← IO.FS.readBinFile path.text).data.toList

/-- Files on disk.  A directory is what cannot be read because it is one. -/
def disk : Storage IO where
  read := readFile
  write path bytes := caught (IO.FS.writeBinFile path.text ⟨bytes.toArray⟩)
  makeDirectory path := caught (IO.FS.createDir path.text)
  isDirectory path := do
    match ← readFile path with
    | .ok _ => return false
    | .error error => return error == .isDirectory

def usage : String :=
  "Usage: oxizip [--verbose] <deflate|inflate|info|pack|resource> ..."

def print (report : Report) : IO UInt32 := do
  for line in report.output do
    IO.println line
  for line in report.errors do
    IO.eprintln line
  return UInt32.ofNat report.code

end Program

end BoundedZlib

open BoundedZlib in
def main (arguments : List String) : IO UInt32 := do
  match Arguments.parse arguments with
  | .error .version =>
      IO.println "oxizip 0.1.0"
      return 0
  | .error .help =>
      IO.println Program.usage
      return 0
  | .error .misused =>
      IO.eprintln Program.usage
      return 2
  | .ok command =>
      match ← command.run Program.disk with
      | none => return 1
      | some report => Program.print report

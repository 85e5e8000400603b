import BoundedZlib.Percentage
import BoundedZlib.Resource.Layers
import BoundedZlib.Storage
import BoundedZlib.StreamHeader

/-!
# Commands

Each command reads whole files, makes one library call for each, writes whole
files, and reports.  Commands run over any storage.
-/

namespace BoundedZlib

inductive Command where
  | deflate (files : List Path) (directory? : Option Path) (capacity? : Option Nat)
  | inflate (file : Path) (size : Nat) (output? : Option Path)
  | info (file : Path) (json : Bool)
  | pack (file : Path) (output? : Option Path) (order : ByteOrder)
  | resource (file : Path) (size : Nat) (names? : Option Path) (order : ByteOrder)
      (output? : Option Path)
deriving Repr, DecidableEq, Inhabited

inductive Problem where
  | storage (error : SystemError)
  | call (failure : Failure)
  | tooShort (file : Path)
  | someFailed (failed total : Nat)
deriving Repr, DecidableEq, Inhabited

def Problem.message : Problem → String
  | storage error => error.message
  | call (.error error) => error.message
  | call .capacityOverflow => "capacity overflow"
  | tooShort file => s!"{file.text}: too short for a zlib header"
  | someFailed failed total => s!"{failed} of {total} files failed"

structure Report where
  code : Nat
  output : List String
  errors : List String
deriving Repr, DecidableEq, Inhabited

namespace Report

def abortCode : Nat := 101

def success (output : List String) : Report :=
  ⟨0, output, []⟩

def problem (output errors : List String) (problem : Problem) : Report :=
  match problem with
  | .call .capacityOverflow => ⟨abortCode, output, errors ++ [problem.message]⟩
  | _ => ⟨1, output, errors ++ [s!"Error: {problem.message}"]⟩

def sizes (input output : Path) (before after : Nat) : String :=
  s!"{input.text} -> {output.text} ({before} -> {after} bytes"

def line (input output : Path) (before after : Nat) : String :=
  sizes input output before after ++ ")"

def lineSaved (input output : Path) (before after : Nat) (saved : String) : String :=
  sizes input output before after ++ s!", {saved})"

end Report

namespace Command

variable {m : Type → Type} [Monad m]

def streamSuffix : Path.Part := ['.', 'z', 'z']

def resourceSuffix : Path.Part := ['.', 'r', 'e', 's']

def plainSuffix : Path.Part := ['.', 'o', 'u', 't']

/-- The table of names that is used when none is given: the built-in decompressor at offset 0. -/
def defaultNames : Resource.NameTable :=
  ⟨Resource.nameBytes Resource.Decompressor.zipName ++ [0]⟩

def stored {α : Type} (answer : m (Except SystemError α)) : ExceptT Problem m α :=
  ExceptT.mk (do return (← answer).mapError .storage)

def called {α : Type} (result : Except Failure α) : ExceptT Problem m α :=
  ExceptT.mk (pure (result.mapError .call))

def reported (lines : ExceptT Problem m (List String)) : m Report := do
  match ← lines.run with
  | .ok lines => return .success lines
  | .error problem => return .problem [] [] problem

/-!
## Deflate
-/

structure Deflated where
  output : Path
  plain : Nat
  compressed : Nat
deriving Repr, DecidableEq, Inhabited

def deflateFile (storage : Storage m) (directory? : Option Path) (capacity? : Option Nat)
    (file : Path) : ExceptT Problem m Deflated := do
  let data ← stored (storage.read file)
  let stream ← called (deflateToCapacity data (capacity?.getD (compressBound data.length)))
  let output := file.addSuffix streamSuffix directory?
  stored (storage.write output stream)
  return ⟨output, data.length, stream.length⟩

def deflatedLine (file : Path) (deflated : Deflated) : String :=
  Report.lineSaved file deflated.output deflated.plain deflated.compressed
    (savedPercentage deflated.plain deflated.compressed)

def deflateReport (results : List (Path × Except Problem Deflated)) : Report :=
  let output := results.filterMap fun (file, result) =>
    result.toOption.map (deflatedLine file)
  let errors := results.filterMap fun (file, result) =>
    match result with
    | .ok _ => none
    | .error problem => some s!"{file.text}: {problem.message}"
  if results.any fun (_, result) => result matches .error (.call .capacityOverflow) then
    .problem [] [] (.call .capacityOverflow)
  else if errors.isEmpty then
    .success output
  else
    .problem output errors (.someFailed errors.length results.length)

def runDeflate (storage : Storage m) (files : List Path) (directory? : Option Path)
    (capacity? : Option Nat) : m Report := do
  let ready ← match directory? with
    | none => pure (.ok ())
    | some directory => storage.ensureDirectories directory
  match ready with
  | .error error => return .problem [] [] (.storage error)
  | .ok () =>
      let results ← files.mapM fun file => do
        return (file, ← (deflateFile storage directory? capacity? file).run)
      return deflateReport results

/-!
## Commands on one file
-/

def runInflate (storage : Storage m) (file : Path) (size : Nat) (output? : Option Path) :
    ExceptT Problem m (List String) := do
  let stream ← stored (storage.read file)
  let content ← called (inflateToSize stream size)
  let output := output?.getD (file.dropSuffix streamSuffix plainSuffix)
  stored (storage.write output content)
  return [Report.lineSaved file output stream.length size (savedPercentage size stream.length)]

def runInfo (storage : Storage m) (file : Path) (json : Bool) :
    ExceptT Problem m (List String) := do
  let data ← stored (storage.read file)
  match StreamHeader.ofBytes? data with
  | none => throw (.tooShort file)
  | some header =>
      return if json then header.jsonReport file.text data.length
        else header.report file.text data.length

def runPack (storage : Storage m) (file : Path) (output? : Option Path) (order : ByteOrder) :
    ExceptT Problem m (List String) := do
  let data ← stored (storage.read file)
  let packed ← called (Failure.lift (Resource.pack data 0 order))
  let output := output?.getD (file.addSuffix resourceSuffix none)
  stored (storage.write output packed)
  return [Report.lineSaved file output data.length packed.length
    (savedPercentage data.length packed.length)]

/-- Strip the layers of a file; the result is none only if they have no end. -/
def runResource (storage : Storage m) (file : Path) (size : Nat) (names? : Option Path)
    (order : ByteOrder) (output? : Option Path) : ExceptT Problem m (Option (List String)) := do
  let data ← stored (storage.read file)
  let names ← match names? with
    | none => pure defaultNames
    | some names => do
        let bytes ← stored (storage.read names)
        pure ⟨bytes⟩
  let image : Resource.Image := { names := names, order := order }
  match image.unpack? size Resource.ampleLayers data with
  | none => return none
  | some result =>
      let content ← called result
      let output := output?.getD (file.dropSuffix resourceSuffix plainSuffix)
      stored (storage.write output content)
      return some [Report.line file output data.length content.length]

/-- Run a command; the result is none only if it has no end. -/
def run (storage : Storage m) : Command → m (Option Report)
  | deflate files directory? capacity? =>
      some <$> runDeflate storage files directory? capacity?
  | inflate file size output? => some <$> reported (runInflate storage file size output?)
  | info file json => some <$> reported (runInfo storage file json)
  | pack file output? order => some <$> reported (runPack storage file output? order)
  | resource file size names? order output? => do
      match ← (runResource storage file size names? order output?).run with
      | .error problem => return some (.problem [] [] problem)
      | .ok lines? => return lines?.map .success

end Command

end BoundedZlib

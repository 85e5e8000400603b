import BoundedZlib.CommandLine.Command

/-!
# Arguments

A command line is read from left to right.  Switches may stand anywhere and
have a long name and perhaps a letter; letters may be run together.  A value is
joined to its switch or follows it, and one that follows must not look like a
switch.  After two dashes alone, everything is a file.  A switch may be given
once, and no more files than the command takes.  The first argument that is not
understood ends the reading, as does a switch that asks for help.
-/

namespace BoundedZlib

namespace Arguments

inductive Ending where
  | misused
  | help
  | version
deriving Repr, DecidableEq, Inhabited

inductive Kind where
  | mark
  | path
  | number
  | ending (ending : Ending)
deriving Repr, DecidableEq, Inhabited

structure Switch where
  name : String
  letter? : Option Char
  kind : Kind
deriving Repr, DecidableEq, Inhabited

inductive Value where
  | mark
  | path (path : Path)
  | number (number : Nat)
deriving Repr, DecidableEq, Inhabited

structure Given where
  /-- How many files may be given, if not any number. -/
  maxFiles? : Option Nat := none
  switches : List (String × Value) := []
  files : List Path := []
deriving Repr, DecidableEq, Inhabited

/-!
## Values
-/

def maxNumber : Nat := 18446744073709551615

def digits? (digits : List Char) : Option Nat :=
  if digits.isEmpty || !digits.all Char.isDigit then none
  else
    let number := digits.foldl (fun number c => number * 10 + (c.toNat - '0'.toNat)) 0
    if number ≤ maxNumber then some number else none

def number? : List Char → Option Nat
  | '+' :: digits => digits? digits
  | digits => digits? digits

def path? (text : List Char) : Option Path :=
  if text.isEmpty then none else some ⟨text⟩

namespace Given

def takesFile (given : Given) : Bool :=
  given.maxFiles?.all (given.files.length < ·)

def addFile (given : Given) (text : List Char) : Except Ending Given :=
  match path? text with
  | none => .error .misused
  | some path =>
      if given.takesFile then .ok { given with files := given.files ++ [path] }
      else .error .misused

def addSwitch (given : Given) (switch : Switch) (value : Value) : Except Ending Given :=
  if given.switches.any (·.1 == switch.name) then .error .misused
  else .ok { given with switches := given.switches ++ [(switch.name, value)] }

def addMark (given : Given) (switch : Switch) : Except Ending Given :=
  match switch.kind with
  | .mark => given.addSwitch switch .mark
  | .ending ending => .error ending
  | _ => .error .misused

def addValue (given : Given) (switch : Switch) (text : List Char) : Except Ending Given :=
  match switch.kind with
  | .path => match path? text with
      | none => .error .misused
      | some path => given.addSwitch switch (.path path)
  | .number => match number? text with
      | none => .error .misused
      | some number => given.addSwitch switch (.number number)
  | _ => .error .misused

def has (given : Given) (name : String) : Bool :=
  (given.switches.lookup name).isSome

def path? (given : Given) (name : String) : Option Path :=
  match given.switches.lookup name with
  | some (.path path) => some path
  | _ => none

def number? (given : Given) (name : String) : Option Nat :=
  match given.switches.lookup name with
  | some (.number number) => some number
  | _ => none

def file (given : Given) : Except Ending Path :=
  match given.files with
  | [file] => .ok file
  | _ => .error .misused

def order (given : Given) : ByteOrder :=
  if given.has "big-endian" then .big else .little

end Given

/-!
## Reading
-/

def Switch.takesValue (switch : Switch) : Bool :=
  switch.kind == .path || switch.kind == .number

def readLong (switches : List Switch) (given : Given) (text : List Char) :
    Except Ending (Given × Option Switch) :=
  let name := text.takeWhile (· != '=')
  match switches.find? (·.name.toList == name), text.drop name.length with
  | none, _ => .error .misused
  | some switch, [] =>
      if switch.takesValue then .ok (given, some switch)
      else (given.addMark switch).map fun given => (given, none)
  | some switch, _ :: value => (given.addValue switch value).map fun given => (given, none)

/--
Read switches by their letters.  A letter that takes a value takes what follows
it, perhaps after an equals sign.
-/
def readLetters (switches : List Switch) (given : Given) :
    List Char → Except Ending (Given × Option Switch)
  | [] => .ok (given, none)
  | letter :: rest =>
      match switches.find? (·.letter? == some letter) with
      | none => .error .misused
      | some switch =>
          if switch.takesValue then
            match rest with
            | [] => .ok (given, some switch)
            | '=' :: value => (given.addValue switch value).map fun given => (given, none)
            | value => (given.addValue switch value).map fun given => (given, none)
          else do
            readLetters switches (← given.addMark switch) rest

def looksLikeSwitch : List Char → Bool
  | '-' :: _ :: _ => true
  | _ => false

/-- Read one argument; the result names the switch whose value must follow. -/
def readArgument (switches : List Switch) (given : Given) :
    List Char → Except Ending (Given × Option Switch)
  | '-' :: '-' :: text => readLong switches given text
  | '-' :: letter :: rest => readLetters switches given (letter :: rest)
  | text => (given.addFile text).map fun given => (given, none)

def read (switches : List Switch) : Given → List (List Char) → Except Ending Given
  | given, [] => .ok given
  | given, ['-', '-'] :: rest => rest.foldlM Given.addFile given
  | given, argument :: rest => do
      match ← readArgument switches given argument with
      | (given, none) => read switches given rest
      | (given, some switch) =>
          match rest with
          | [] => .error .misused
          | value :: rest =>
              if looksLikeSwitch value then .error .misused
              else read switches (← given.addValue switch value) rest

/-!
## Commands
-/

def helpSwitch : Switch := ⟨"help", some 'h', .ending .help⟩

def verboseSwitch : Switch := ⟨"verbose", some 'v', .mark⟩

def leadingSwitches : List Switch :=
  [helpSwitch, verboseSwitch, ⟨"version", some 'V', .ending .version⟩]

structure Subcommand where
  names : List String
  maxFiles? : Option Nat
  switches : List Switch
  command : Given → Except Ending Command

def outputSwitch : Switch := ⟨"output", some 'o', .path⟩

def sizeSwitch : Switch := ⟨"size", some 's', .number⟩

def bigEndianSwitch : Switch := ⟨"big-endian", none, .mark⟩

def required {α : Type} : Option α → Except Ending α
  | none => .error .misused
  | some value => .ok value

def subcommands : List Subcommand :=
  [ { names := ["deflate", "d"]
      maxFiles? := none
      switches := [outputSwitch, ⟨"capacity", some 'c', .number⟩, ⟨"quiet", some 'q', .mark⟩]
      command given :=
        if given.files.isEmpty then .error .misused
        else .ok (.deflate given.files (given.path? "output") (given.number? "capacity")) },
    { names := ["inflate", "x"]
      maxFiles? := some 1
      switches := [sizeSwitch, outputSwitch]
      command given := do
        let size ← required (given.number? "size")
        return .inflate (← given.file) size (given.path? "output") },
    { names := ["info", "i"]
      maxFiles? := some 1
      switches := [⟨"json", some 'j', .mark⟩]
      command given := do
        return .info (← given.file) (given.has "json") },
    { names := ["pack"]
      maxFiles? := some 1
      switches := [outputSwitch, bigEndianSwitch]
      command given := do
        return .pack (← given.file) (given.path? "output") given.order },
    { names := ["resource"]
      maxFiles? := some 1
      switches := [sizeSwitch, ⟨"names", some 'n', .path⟩, bigEndianSwitch, outputSwitch]
      command given := do
        let size ← required (given.number? "size")
        return .resource (← given.file) size (given.path? "names") given.order
          (given.path? "output") } ]

def subcommand? (name : List Char) : Option Subcommand :=
  subcommands.find? fun subcommand => subcommand.names.any (·.toList == name)

def isHelpTopic : List (List Char) → Bool
  | [] => true
  | [name] => (subcommand? name).isSome || name == "help".toList
  | _ => false

def readCommand : Given → List (List Char) → Except Ending Command
  | _, [] => .error .misused
  | given, argument :: rest =>
      if argument = "help".toList then
        .error (if isHelpTopic rest then .help else .misused)
      else
        match subcommand? argument with
        | some subcommand => do
            let switches := helpSwitch :: verboseSwitch :: subcommand.switches
            subcommand.command (← read switches { maxFiles? := subcommand.maxFiles? } rest)
        | none =>
            if looksLikeSwitch argument && argument ≠ ['-', '-'] then do
              let (given, _) ← readArgument leadingSwitches given argument
              readCommand given rest
            else
              .error .misused

def parse (arguments : List String) : Except Ending Command :=
  readCommand {} (arguments.map String.toList)

end Arguments

end BoundedZlib

import BoundedZlib.Storage

/-!
# A file system as a value

A tree of directories, files and links, seen from a working directory, with the
rules by which paths are followed and the errors that arise.  It serves to run
commands, and to reason about them, without touching any disk.

Links decide which place a path names, and two places are two files.  What lies
outside of the working directory starts from places of its own, which are the
same as those inside where links say so.
-/

namespace BoundedZlib

inductive Node where
  | file (bytes : Bytes)
  | directory
deriving Repr, DecidableEq, Inhabited

/--
A place in the tree: names to follow from the working directory down.  A place
outside of it starts with the name of the root, or with steps up.
-/
abbrev Location := List Path.Part

/-- Where a link leads: to what these parts of a path name, seen from this place. -/
structure Link where
  start : Location
  parts : List Path.Part
deriving Repr, DecidableEq, Inhabited

/--
The tree, as a list of what is at which place, and of the places that are links.

A symbolic link starts from the directory that it is in, or from the root.  As
nothing here removes a name, every further name of a file is a link to its first
one, and the working directory and those above it can be links from where they
lie below the root.
-/
structure FileSystem where
  nodes : List (Location × Node) := []
  links : List (Location × Link) := []
deriving Repr, DecidableEq, Inhabited

namespace FileSystem

def root : Location := [['/']]

/-- Whether a place is a directory of which nothing more is known. -/
def isOutside (place : Location) : Bool :=
  place == root || place.all (· == Path.above)

def get? (files : FileSystem) (place : Location) : Option Node :=
  if isOutside place then some .directory else files.nodes.lookup place

def set (files : FileSystem) (place : Location) (node : Node) : FileSystem :=
  { files with nodes := (place, node) :: files.nodes.filter (·.1 != place) }

/-!
## Limits
-/

def byteSize (chars : List Char) : Nat :=
  chars.foldl (fun size char => size + char.utf8Size) 0

def maxName : Nat := 255

def maxPath : Nat := 4095

/-- How deep links may lead through links. -/
def maxLinks : Nat := 40

def isLongName (name : Path.Part) : Bool :=
  maxName < byteSize name

def isLongPath (path : Path) : Bool :=
  maxPath < byteSize path.chars

/-!
## Following paths
-/

def up (place : Location) : Location :=
  if place = root then place
  else if isOutside place then place ++ [Path.above]
  else place.dropLast

/-- Go to a place or, if it is a link, to where `leap` finds that it leads. -/
def enter (files : FileSystem) (leap : Link → Except SystemError Location) (place : Location) :
    Except SystemError Location :=
  match files.links.lookup place with
  | none => .ok place
  | some link => leap link

/--
Follow one part of a path from a place.  What is in a directory need not be there
yet; the directory above always is.
-/
def follow (files : FileSystem) (leap : Link → Except SystemError Location) (place : Location)
    (part : Path.Part) : Except SystemError Location :=
  match files.get? place with
  | none => .error .notFound
  | some (.file _) => .error .notDirectory
  | some .directory =>
      if Path.isBlank part then .ok place
      else if part = Path.above then do
        let next ← files.enter leap (up place)
        if files.get? next = some .directory then return next else .error .notFound
      else if isLongName part then .error .nameTooLong
      else files.enter leap (place ++ [part])

def walk (files : FileSystem) (leap : Link → Except SystemError Location) (place : Location)
    (parts : List Path.Part) : Except SystemError Location :=
  parts.foldlM (files.follow leap) place

/-- Where a link leads, through at most so many others one inside the other. -/
def leapWithin (files : FileSystem) : Nat → Link → Except SystemError Location
  | 0, _ => .error .tooManyLinks
  | depth + 1, link => files.walk (files.leapWithin depth) link.start link.parts

def leap (files : FileSystem) : Link → Except SystemError Location :=
  files.leapWithin maxLinks

def origin (path : Path) : Location :=
  if path.isAbsolute then root else []

def resolve (files : FileSystem) (path : Path) : Except SystemError Location :=
  if path.chars = [] then .error .notFound
  else if isLongPath path then .error .nameTooLong
  else do
    let place ← files.walk files.leap (origin path) (Path.split path.chars)
    if (files.get? place).isSome then return place else .error .notFound

structure Opening where
  directory : Location
  name : Path.Part
  /-- Whether slashes follow the name. -/
  slashed : Bool

/--
The directory in which a path names something, whether or not it is there, and
the name; none if the path is the root.
-/
def opening (files : FileSystem) (path : Path) : Except SystemError (Option Opening) :=
  if path.chars = [] then
    .error .notFound
  else if isLongPath path then
    .error .nameTooLong
  else
    let parts := (Path.split path.chars).reverse
    match parts.dropWhile (·.isEmpty) with
    | [] => .ok none
    | name :: before => do
        let directory ← files.walk files.leap (origin path) before.reverse
        match files.get? directory with
        | none => .error .notFound
        | some (.file _) => .error .notDirectory
        | some .directory => return some ⟨directory, name, parts.head?.any (·.isEmpty)⟩

def isFixed (name : Path.Part) : Bool :=
  name == Path.here || name == Path.above

/--
The place where a file of this path is, or would be if it were written.  A link is
followed, also to where there is nothing yet.
-/
def locate (files : FileSystem) (path : Path) : Except SystemError Location := do
  match ← files.opening path with
  | none => .error .isDirectory
  | some ⟨directory, name, slashed⟩ =>
      if slashed || isFixed name then
        .error .isDirectory
      else if isLongName name then
        .error .nameTooLong
      else
        files.enter files.leap (directory ++ [name])

/-!
## Operations
-/

def read (files : FileSystem) (path : Path) : Except SystemError Bytes := do
  match files.get? (← files.resolve path) with
  | some (.file bytes) => return bytes
  | some .directory => .error .isDirectory
  | none => .error .notFound

def write (files : FileSystem) (path : Path) (bytes : Bytes) : Except SystemError FileSystem := do
  let place ← files.locate path
  if files.get? place = some .directory then
    .error .isDirectory
  else
    return files.set place (.file bytes)

def makeDirectory (files : FileSystem) (path : Path) : Except SystemError FileSystem := do
  match ← files.opening path with
  | none => .error .alreadyExists
  | some ⟨directory, name, _⟩ =>
      if isFixed name || (files.links.lookup (directory ++ [name])).isSome ||
          (files.get? (directory ++ [name])).isSome then
        .error .alreadyExists
      else if isLongName name then
        .error .nameTooLong
      else
        return files.set (directory ++ [name]) .directory

def isDirectory (files : FileSystem) (path : Path) : Bool :=
  match files.resolve path with
  | .ok place => files.get? place == some .directory
  | .error _ => false

def update (operation : FileSystem → Except SystemError FileSystem) :
    StateM FileSystem (Except SystemError Unit) :=
  modifyGet fun files =>
    match operation files with
    | .ok changed => (.ok (), changed)
    | .error error => (.error error, files)

def storage : Storage (StateM FileSystem) where
  read path := do return (← get).read path
  write path bytes := update fun files => files.write path bytes
  makeDirectory path := update fun files => files.makeDirectory path
  isDirectory path := do return (← get).isDirectory path

end FileSystem

end BoundedZlib

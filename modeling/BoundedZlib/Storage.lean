import BoundedZlib.Bits
import BoundedZlib.Path

/-!
# Access to files

What the commands need of a file system, whatever provides it, and the errors
that come from there.
-/

namespace BoundedZlib

structure SystemError where
  code : Nat
  text : String
deriving Repr, DecidableEq, Inhabited

namespace SystemError

def message (error : SystemError) : String :=
  s!"{error.text} (os error {error.code})"

def notFound : SystemError := ⟨2, "No such file or directory"⟩

def alreadyExists : SystemError := ⟨17, "File exists"⟩

def notDirectory : SystemError := ⟨20, "Not a directory"⟩

def isDirectory : SystemError := ⟨21, "Is a directory"⟩

def nameTooLong : SystemError := ⟨36, "File name too long"⟩

def tooManyLinks : SystemError := ⟨40, "Too many levels of symbolic links"⟩

end SystemError

structure Storage (m : Type → Type) where
  read : Path → m (Except SystemError Bytes)
  write : Path → Bytes → m (Except SystemError Unit)
  makeDirectory : Path → m (Except SystemError Unit)
  isDirectory : Path → m Bool

namespace Storage

variable {m : Type → Type} [Monad m]

def ensureDirectory (storage : Storage m) (path : Path) : m (Except SystemError Unit) := do
  match ← storage.makeDirectory path with
  | .ok () => return .ok ()
  | .error error =>
      if ← storage.isDirectory path then return .ok () else return .error error

/--
Create a directory and those above it that are missing; `depth` bounds how far
up to look.
-/
def ensureDirectoriesFrom (storage : Storage m) :
    (depth : Nat) → Path → m (Except SystemError Unit)
  | 0, path => storage.ensureDirectory path
  | depth + 1, path => do
      if path.chars.isEmpty then
        return .ok ()
      match ← storage.ensureDirectory path with
      | .ok () => return .ok ()
      | .error error =>
          if error.code ≠ SystemError.notFound.code then
            return .error error
          match path.parent? with
          | none => return .error error
          | some parent =>
              match ← storage.ensureDirectoriesFrom depth parent with
              | .error error => return .error error
              | .ok () => storage.ensureDirectory path

def ensureDirectories (storage : Storage m) (path : Path) : m (Except SystemError Unit) :=
  storage.ensureDirectoriesFrom (path.chars.length + 1) path

end Storage

end BoundedZlib

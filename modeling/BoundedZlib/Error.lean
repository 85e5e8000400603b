/-!
# Errors

Every way in which a call can fail, with its text and its kind.  A request for
more memory than can be addressed is no error of a call: it ends the program.
-/

namespace BoundedZlib

inductive Stage where
  | inflateInit
  | inflate
  | deflateInit
  | deflate
deriving Repr, DecidableEq, Inhabited

def Stage.name : Stage → String
  | inflateInit => "inflateInit2"
  | inflate => "inflate"
  | deflateInit => "deflateInit2"
  | deflate => "deflate"

inductive Error where
  | io (text : String)
  /-- The stream ended at another size than declared, or the input ran out. -/
  | unexpectedEnd (expected produced : Nat)
  | corrupted (message : String)
  | outOfMemory (stage : Stage)
  /-- The engine ended in a way that means nothing more specific. -/
  | internal (stage : Stage) (message : String)
  /-- The output buffer cannot hold the whole stream. -/
  | bufferTooSmall (capacity : Nat)
  | bufferTooLarge (length limit : Nat)
  | invalidHeader (message : String)
  | unknownDecompressor (name : String)
  | nameNotFound (offset : Nat)
  /-- A name would start past the largest offset. -/
  | nameTableFull (length : Nat)
  /-- A resource or one of its layers has another size than declared. -/
  | sizeMismatch (expected actual : Nat)
deriving Repr, DecidableEq, Inhabited

namespace Error

inductive Kind where
  | io
  | unexpectedEnd
  | corrupted
  | outOfMemory
  | internal
  | bufferTooSmall
  | bufferTooLarge
  | resource
deriving Repr, DecidableEq, Inhabited

def kind : Error → Kind
  | io _ => .io
  | unexpectedEnd .. => .unexpectedEnd
  | corrupted _ => .corrupted
  | outOfMemory _ => .outOfMemory
  | internal .. => .internal
  | bufferTooSmall _ => .bufferTooSmall
  | bufferTooLarge .. => .bufferTooLarge
  | invalidHeader _ => .resource
  | unknownDecompressor _ => .resource
  | nameNotFound _ => .resource
  | nameTableFull _ => .resource
  | sizeMismatch .. => .resource

def message : Error → String
  | io text => s!"I/O error: {text}"
  | unexpectedEnd expected produced =>
      s!"Unexpected end of stream: expected {expected} bytes, produced {produced}"
  | corrupted text => s!"Compressed data corrupted: {text}"
  | outOfMemory stage => s!"Out of memory in {stage.name}"
  | internal stage text => s!"Internal error in {stage.name}: {text}"
  | bufferTooSmall capacity =>
      s!"Buffer too small: {capacity} bytes cannot hold the compressed stream"
  | bufferTooLarge length limit =>
      s!"Buffer too large: {length} bytes exceeds engine limit of {limit}"
  | invalidHeader text => s!"Invalid resource header: {text}"
  | unknownDecompressor name => s!"Unknown decompressor: {name}"
  | nameNotFound offset => s!"No string at offset {offset} in string table"
  | nameTableFull length =>
      s!"String table full: offset {length} does not fit in 32 bits"
  | sizeMismatch expected actual =>
      s!"Resource size mismatch: expected {expected} bytes, got {actual}"

end Error

/-- Why a call that allocates its own output did not return it. -/
inductive Failure where
  | error (reason : Error)
  /-- More bytes were asked for than a buffer can have; the program ends. -/
  | capacityOverflow
deriving Repr, DecidableEq, Inhabited

namespace Failure

def maxCapacity : Nat := 9223372036854775807

/--
Ask for a new buffer.  Only the largest size that one can have counts here.  A smaller one may
exhaust the memory of a machine, and that ends a program, too; it is left out.
-/
def allocate (size : Nat) : Except Failure Unit :=
  if size ≤ maxCapacity then .ok () else .error .capacityOverflow

def lift {α : Type} : Except Error α → Except Failure α
  | .ok value => .ok value
  | .error reason => .error (.error reason)

theorem lift_eq_ok {α : Type} {outcome : Except Error α} {value : α} :
    lift outcome = .ok value ↔ outcome = .ok value := by
  cases outcome with
  | ok found => simp [lift]
  | error reason => simp [lift]

theorem lift_ne_capacityOverflow {α : Type} (outcome : Except Error α) :
    lift outcome ≠ .error .capacityOverflow := by
  cases outcome with
  | ok value =>
      intro h
      cases h
  | error reason =>
      intro h
      injection h with h
      cases h

end Failure

end BoundedZlib

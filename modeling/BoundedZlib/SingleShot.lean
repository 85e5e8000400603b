import BoundedZlib.Engine
import BoundedZlib.Error

/-!
# Single-shot calls

A single-shot call owns one session of an engine, drives it against buffers of
known length, and releases it before it returns.  This module holds what
inflating and deflating have in common.
-/

namespace BoundedZlib

structure Run (σ α : Type) where
  outcome : Except Error α
  buffer : Bytes
  /-- The session as it was released; none if no engine was started. -/
  session? : Option (Except Fault σ)

namespace SingleShot

def checkLength (length limit : Nat) : Except Error Unit :=
  if length ≤ limit then .ok () else .error (.bufferTooLarge length limit)

def checkLengths (input output limit : Nat) : Except Error Unit := do
  checkLength input limit
  checkLength output limit

def cursor (total length : Nat) : Nat :=
  min total length

theorem cursor_le (total length : Nat) : cursor total length ≤ length :=
  Nat.min_le_right total length

def startError (stage : Stage) : Fault → Error
  | .memory => .outOfMemory stage
  | fault => .internal stage fault.message

end SingleShot

end BoundedZlib

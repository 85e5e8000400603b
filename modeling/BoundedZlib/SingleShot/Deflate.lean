import BoundedZlib.Encoder
import BoundedZlib.SingleShot

/-!
# Deflating in one step

The whole input is handed to the engine in one step that asks to finish.  There
is no second attempt: if the stream did not end, the output buffer was too
small.
-/

namespace BoundedZlib

open SingleShot

def Deflate.verdict (capacity totalOut : Nat) : Except Fault Status → Except Error Nat
  | .ok .streamEnd => .ok (cursor totalOut capacity)
  | .ok .ok => .error (.bufferTooSmall capacity)
  | .ok .stalled => .error (.bufferTooSmall capacity)
  | .error fault => .error (.internal .deflate fault.message)

def deflateWith {σ : Type} (engine : Engine DeflateSettings σ) (input buffer : Bytes) :
    Run σ Nat :=
  match checkLengths input.length buffer.length engine.maxLength with
  | .error error => ⟨.error error, buffer, none⟩
  | .ok () =>
      match engine.start {} with
      | .error fault => ⟨.error (startError .deflateInit fault), buffer, some (.error fault)⟩
      | .ok session =>
          let step := engine.step session input buffer .finish
          ⟨Deflate.verdict buffer.length (engine.totalOut step.session) step.result, step.slice,
            some (.ok step.session)⟩

def deflate (input buffer : Bytes) : Run Encoder Nat :=
  deflateWith Encoder.engine input buffer

/--
The stream that deflating into a new buffer of this capacity writes.  Nothing is
kept of capacity that is not needed, so only its size matters.
-/
def deflateWithin (input : Bytes) (capacity : Nat) : Except Error Bytes := do
  checkLengths input.length capacity Encoder.engine.maxLength
  let session ← (Encoder.start {}).mapError (startError .deflateInit)
  let reply := session.step input capacity .finish
  let written ← Deflate.verdict capacity reply.session.totalOut reply.result
  return reply.output.take written

def deflateToBound (input : Bytes) : Except Error Bytes :=
  deflateWithin input (compressBound input.length)

def deflateToCapacity (input : Bytes) (capacity : Nat) : Except Failure Bytes := do
  Failure.allocate capacity
  Failure.lift (deflateWithin input capacity)

end BoundedZlib

import BoundedZlib.Engine
import BoundedZlib.Inflater
import BoundedZlib.Settings

/-!
# Decoder sessions

A decoder reads one zlib stream over any number of steps.  It decodes ahead of
its caller, at most to the end of a window of 32 KiB of content, and what does
not fit the caller's buffer waits for the next step.  A first step that asks to
finish is answered directly: content goes straight into the caller's buffer,
and copies may not reach before its start.
-/

namespace BoundedZlib

/-- How the steps so far bind those to come. -/
inductive Conduct where
  | fresh
  | streaming
  | finishing
  /-- A step that asked to finish ran out of input: every step stalls. -/
  | starved
  /-- The stream is malformed, or a direct answer ran out of room: every step fails. -/
  | broken
deriving Repr, DecidableEq, Inhabited

structure Decoder where
  inflater : Inflater
  /-- Bits of the last byte consumed that are not yet read. -/
  unread : List Bool
  totalIn : Nat
  totalOut : Nat
  conduct : Conduct

namespace Decoder

structure Reply where
  session : Decoder
  output : Bytes
  result : Except Fault Status

/-- The content window, up to whose ends a decoder reads ahead. -/
def window : Nat := 32768

def initial : Decoder where
  inflater := .initial false
  unread := []
  totalIn := 0
  totalOut := 0
  conduct := .fresh

def malformed : Fault :=
  .data "deflate decompression error"

/-- Only the largest window is supported. -/
def start (settings : InflateSettings) : Except Fault Decoder :=
  if settings.windowBits = maxWindowBits then
    .ok initial
  else
    .error (.stream s!"unsupported window size: {settings.windowBits} bits")

/-!
## Parts of a step
-/

def waiting (session : Decoder) : Nat :=
  session.inflater.content.size - session.totalOut

def windowEnd (session : Decoder) : Nat :=
  (session.inflater.content.size / window + 1) * window

def isComplete (session : Decoder) : Bool :=
  session.inflater.isFinished && session.waiting == 0

/--
Read on to a limit of content, and hand back the bytes not consumed: a byte
counts as consumed once one of its bits is read.
-/
def read (limit : Nat) (session : Decoder) (input : Bytes) : Decoder × Bytes :=
  let (inflater, rest) := session.inflater.run limit (session.unread ++ Bits.ofBytes input)
  let consumed := input.length - rest.length / 8
  ({ session with
      inflater := inflater
      unread := rest.take (rest.length % 8)
      totalIn := session.totalIn + consumed },
    input.drop consumed)

def deliver (room : Nat) (session : Decoder) : Decoder × Bytes :=
  let totalOut := session.totalOut + min room session.waiting
  ({ session with totalOut := totalOut },
    (session.inflater.content.extract session.totalOut totalOut).toList)

def reply (session : Decoder) (conduct : Conduct) (output : Bytes)
    (result : Except Fault Status) : Reply :=
  ⟨{ session with conduct := conduct }, output, result⟩

/-!
## Steps
-/

/--
How a step that does not ask to finish ends at the end of a window, if it ends
there.  It had been given `input` and has `left` of it and `room` to fill.
-/
def verdict (session : Decoder) (input left : Bytes) (room : Nat) :
    Option (Conduct × Except Fault Status) :=
  if session.inflater.hasFailed then
    some (.broken, .error malformed)
  else if session.inflater.wantsBit && input.isEmpty then
    some (.streaming, .ok .stalled)
  else if session.isComplete then
    some (.streaming, .ok .streamEnd)
  else if session.inflater.isFinished || left.isEmpty || room == 0 || session.waiting != 0 then
    some (.streaming, .ok .ok)
  else
    none

def finishVerdict (session : Decoder) (room : Nat) : Option (Conduct × Except Fault Status) :=
  if session.inflater.hasFailed then
    some (.broken, .error malformed)
  else if session.inflater.wantsBit then
    some (.starved, .ok .stalled)
  else if session.isComplete then
    some (.finishing, .ok .streamEnd)
  else if session.inflater.isFinished || room == 0 then
    some (.finishing, .ok .stalled)
  else
    none

/--
Decode window after window.  Every window but the first is filled whole, so the
room bounds their number.
-/
def windows (finish : Bool) (input : Bytes) :
    (count : Nat) → Decoder → (left : Bytes) → (room : Nat) → Reply
  | 0, session, _, _ => reply session session.conduct [] (.ok .ok)
  | count + 1, session, left, room =>
      let (session, left) := session.read session.windowEnd left
      let (session, output) := session.deliver room
      let room := room - output.length
      match if finish then finishVerdict session room else verdict session input left room with
      | some (conduct, result) => reply session conduct output result
      | none =>
          let rest := windows finish input count session left room
          { rest with output := output ++ rest.output }

/-- A step that is not answered directly: waiting bytes come first, and alone. -/
def resume (finish : Bool) (session : Decoder) (input : Bytes) (room : Nat) : Reply :=
  if session.waiting = 0 then
    windows finish input (room / window + 2) session input room
  else
    let (session, output) := session.deliver room
    reply session session.conduct output (.ok (if session.isComplete then .streamEnd else .ok))

/-- A first step that asks to finish: content goes straight into the caller's buffer. -/
def direct (session : Decoder) (input : Bytes) (room : Nat) : Reply :=
  let (session, _) := { session with inflater := .initial true }.read room input
  let (session, output) := session.deliver room
  if session.inflater.hasFailed then
    reply session .broken output (.error malformed)
  else if session.inflater.isFinished then
    reply session .finishing output (.ok .streamEnd)
  else if session.inflater.wantsBit then
    reply session .starved output (.ok .stalled)
  else
    reply session .broken output (.ok .stalled)

def step (session : Decoder) (input : Bytes) (room : Nat) (flush : Flush) : Reply :=
  match session.conduct, flush with
  | .starved, _ => reply session .starved [] (.ok .stalled)
  | .broken, _ => reply session .broken [] (.error malformed)
  | .fresh, .finish => direct session input room
  | _, .finish => resume true { session with conduct := .finishing } input room
  | .finishing, _ => reply session .finishing [] (.error malformed)
  | _, _ => resume false { session with conduct := .streaming } input room

def engine : Engine InflateSettings Decoder where
  start := start
  step session input slice flush :=
    let reply := session.step input slice.length flush
    ⟨reply.session, Bytes.overwrite slice reply.output, reply.result⟩
  totalIn := totalIn
  totalOut := totalOut
  length_slice _ _ _ _ := Bytes.length_overwrite _ _

end Decoder

end BoundedZlib

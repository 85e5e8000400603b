import BoundedZlib.Adler
import BoundedZlib.ByteOrder
import BoundedZlib.Lookahead

/-!
# Reading a zlib stream

An `Inflater` is the state of reading one zlib stream: where in the stream it
stands, what it is reading or writing there, and all content spelled so far.
It is driven by single bits.  Writing needs room: the content may grow up to a
limit that the caller sets, and a token that finds no room waits.

`Inflater.run` goes as far as the bits and the limit allow.  It stops because
it is finished, has failed, wants more bits, or wants more room.  A stored byte
wants room before it is read, unless input was taken so far ahead that it is
already at hand.
-/

namespace BoundedZlib

inductive Element where
  | header
  | opening (final : Bool) (body : BlockBody)
  | token? (token : Option Token)
  | checksum (value : Nat)

inductive Place where
  | start
  | block
  | coded (final : Bool) (codes : Codes)
  /-- In a block of stored bytes, so many of which are not yet written. -/
  | stored (final : Bool) (left : Nat)
  | trailer

inductive Phase where
  /-- An element is being read, and with it the parts that it ends with. -/
  | reading (reader : BitReader (Element × List Part))
  /-- A token was read and has this much to write. -/
  | writing (token : Token)
  /-- A stored byte is to be read as soon as there is room for it or it is at hand. -/
  | holding
  | finished
  | failed

structure Inflater where
  place : Place
  phase : Phase
  position : Nat
  content : Content
  /-- Whether a copy may reach only what was spelled, and not the zeros before it. -/
  strict : Bool

/-!
## Elements
-/

/--
Whether two header bytes announce a stream that can be read: DEFLATE with a
window of at most 32 KiB, a correct check, and no preset dictionary.
-/
def Element.isHeader (method flags : Nat) : Bool :=
  method % 16 == 8 && method / 16 ≤ 7 && (method * 256 + flags) % 31 == 0 && flags / 32 % 2 == 0

def Element.headerReader : BitReader Element := do
  let method ← BitReader.nat 8
  let flags ← BitReader.nat 8
  if isHeader method flags then return .header else .reject

def Element.checksumReader (position : Nat) : BitReader Element := do
  BitReader.skip (padding position)
  let bytes ← BitReader.replicate 4 (BitReader.nat 8)
  return .checksum (ByteOrder.big.decode (bytes.map UInt8.ofNat))

def Place.reader (position : Nat) : Place → BitReader (Element × List Part)
  | start => return (← Element.headerReader, [])
  | block => do
      let ((final, body), parts) ← BlockBody.openingReader position
      return (.opening final body, parts)
  | coded _ codes => do
      let (token?, parts) ← Codes.tokenReader codes
      return (.token? token?, parts)
  | stored _ _ => return (.token? (some (.literal (UInt8.ofNat (← BitReader.nat 8)))), [])
  | trailer => return (← Element.checksumReader position, [])

/-- Take the input of an element that ends at a position, given its parts and the room there. -/
def Lookahead.follow (look : Lookahead) (stretch : Stretch) (room position : Nat)
    (parts : List Part) : Element → Lookahead
  | .opening _ _ => look.takeOpening stretch (position - Part.totalWidth parts) parts
  | .token? _ => look.takeToken stretch room (position - Part.totalWidth parts) parts
  | _ => look

namespace Inflater

def initial (strict : Bool) : Inflater where
  place := .start
  phase := .reading (Place.reader 0 .start)
  position := 0
  content := #[]
  strict := strict

/-!
## Going from element to element
-/

def enter (state : Inflater) (place : Place) : Inflater :=
  { state with place := place, phase := .reading (place.reader state.position) }

def leave (state : Inflater) (final : Bool) : Inflater :=
  state.enter (if final then .trailer else .block)

def enterStored (state : Inflater) (final : Bool) : (left : Nat) → Inflater
  | 0 => state.leave final
  | left + 1 => { state with place := .stored final (left + 1), phase := .holding }

def admits (state : Inflater) : Token → Bool
  | .literal _ => true
  | .copy _ distance => !state.strict || distance ≤ state.content.size

def accept (state : Inflater) : Element → Inflater
  | .header => state.enter .block
  | .opening final (.stored length) => state.enterStored final length
  | .opening final (.coded codes) => state.enter (.coded final codes)
  | .token? (some token) =>
      { state with phase := if state.admits token then .writing token else .failed }
  | .token? none =>
      match state.place with
      | .coded final _ => state.leave final
      | _ => { state with phase := .failed }
  | .checksum value =>
      let sums := state.content.foldl Adler.add {}
      { state with phase := if value = sums.value then .finished else .failed }

def advance (state : Inflater) : Inflater :=
  match state.place with
  | .stored final left => state.enterStored final (left - 1)
  | place => state.enter place

/-!
## Writing
-/

/-- Repeat a stretch as far as there is room, and tell how much of it is left. -/
def copyWithin (limit distance : Nat) : Content → (length : Nat) → Content × Nat
  | content, 0 => (content, 0)
  | content, length + 1 =>
      if content.size < limit then
        copyWithin limit distance (content.push (content.back distance)) length
      else
        (content, length + 1)

def write (limit : Nat) (state : Inflater) : Inflater :=
  match state.phase with
  | .writing (.literal byte) =>
      if state.content.size < limit then
        advance { state with content := state.content.push byte }
      else
        state
  | .writing (.copy length distance) =>
      let (content, left) := copyWithin limit distance state.content length
      let state := { state with content := content, phase := .writing (.copy left distance) }
      if left = 0 then advance state else state
  | _ => state

def unhold (limit : Nat) (atHand : Bool) (state : Inflater) : Inflater :=
  match state.phase with
  | .holding =>
      if atHand || state.content.size < limit then state.enter state.place else state
  | _ => state

/-- Do all that needs no further bit. -/
def settle (limit : Nat) (atHand : Bool) (state : Inflater) : Inflater :=
  (state.write limit).unhold limit atHand

/-!
## Reading
-/

def wantsBit (state : Inflater) : Bool :=
  match state.phase with
  | .reading _ => true
  | _ => false

def isFinished (state : Inflater) : Bool :=
  match state.phase with
  | .finished => true
  | _ => false

def hasFailed (state : Inflater) : Bool :=
  match state.phase with
  | .failed => true
  | _ => false

def feed (state : Inflater) (bit : Bool) : Inflater × Option (Element × List Part) :=
  match state.phase with
  | .reading reader =>
      let state := { state with position := state.position + 1 }
      match reader.feed bit with
      | .done (element, parts) => (state.accept element, some (element, parts))
      | .bit next => ({ state with phase := .reading (.bit next) }, none)
      | .reject => ({ state with phase := .failed }, none)
  | _ => (state, none)

def hasByte (state : Inflater) (look : Lookahead) : Bool :=
  look.holds state.position 8

def takeInput (limit : Nat) (stretch : Stretch) (state : Inflater) (look : Lookahead) :
    Option (Element × List Part) → Lookahead
  | none => look
  | some (element, parts) =>
      look.follow stretch (limit - state.content.size) state.position parts element

def runFrom (limit : Nat) (stretch : Stretch) :
    Lookahead → Inflater → List Bool → Inflater × List Bool
  | look, state, [] => (state.settle limit (state.hasByte look), [])
  | look, state, bit :: rest =>
      let state := state.settle limit (state.hasByte look)
      if state.wantsBit then
        let (state, complete?) := state.feed bit
        runFrom limit stretch (state.takeInput limit stretch look complete?) state rest
      else
        (state, bit :: rest)

/-- Go as far as the bits and the limit allow, and hand back the bits not read. -/
def run (limit : Nat) (state : Inflater) (bits : List Bool) : Inflater × List Bool :=
  runFrom limit ⟨state.position, state.position + bits.length⟩ (.start state.position) state bits

end Inflater

end BoundedZlib

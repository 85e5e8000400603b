import BoundedZlib.Adler
import BoundedZlib.ByteOrder
import BoundedZlib.Deflate.Matcher
import BoundedZlib.Engine
import BoundedZlib.Settings

/-!
# Encoder sessions

An encoder writes one zlib stream over any number of steps.  A step takes all
of its input, writes it in blocks none of which is the last, and adds what its
flush mode asks for: a marker that brings the stream to a byte boundary, or an
empty last block and the checksum.  Without a flush nothing is added, and the
end of the input is kept back, since a copy that starts there could still grow.
What does not fit the caller's buffer is kept in a queue for the next step.
-/

namespace BoundedZlib

structure Encoder where
  level : Level
  /-- All input consumed. -/
  content : Content
  /-- How much of the input is written. -/
  spelled : Nat
  seen : Sightings
  sums : Adler
  /-- Bits written that do not fill a byte. -/
  pending : List Bool
  /-- Bytes written that are not yet delivered. -/
  queue : Bytes
  totalOut : Nat
  opened : Bool
  closed : Bool

namespace Encoder

structure Reply where
  session : Encoder
  output : Bytes
  result : Except Fault Status

def initial (level : Level) : Encoder where
  level := level
  content := #[]
  spelled := 0
  seen := .empty
  sums := {}
  pending := []
  queue := []
  totalOut := 0
  opened := false
  closed := false

def start (settings : DeflateSettings) : Except Fault Encoder :=
  if settings.windowBits ≠ maxWindowBits then
    .error (.stream s!"unsupported window size: {settings.windowBits} bits")
  else if settings.memoryLevel ≠ defaultMemoryLevel then
    .error (.stream s!"unsupported memory level: {settings.memoryLevel}")
  else if settings.strategy ≠ .standard then
    .error (.stream s!"unsupported strategy: {settings.strategy.name}")
  else
    .ok (initial settings.level)

def totalIn (session : Encoder) : Nat :=
  session.content.size

/-!
## Writing
-/

def put (session : Encoder) (bits : List Bool) : Encoder :=
  let (bytes, pending) := Bits.pack (session.pending ++ bits)
  { session with queue := session.queue ++ bytes, pending := pending }

def putBlock (final : Bool) (session : Encoder) (block : Block) : Encoder :=
  session.put (block.bits final session.pending.length)

/-- The two header bytes; the second one tells the class of the level. -/
def header (level : Level) : Bytes :=
  if level.value < 2 then [0x78, 0x01]
  else if level.value < 6 then [0x78, 0x5E]
  else if level.value < 7 then [0x78, 0x9C]
  else [0x78, 0xDA]

def openStream (session : Encoder) : Encoder :=
  if session.opened then session
  else { session.put (Bits.ofBytes (header session.level)) with opened := true }

def effort (level : Level) : Nat :=
  4 * level.value

def absorb (session : Encoder) (input : Bytes) : Encoder :=
  { session with
    content := session.content ++ input
    sums := session.sums.addBytes input }

def spellTo (stop : Nat) (session : Encoder) : Encoder :=
  let (tokens, seen) := Matcher.spell (effort session.level) session.content stop
    (stop - session.spelled) 0 session.seen #[]
  let blocks := Block.ofGroups (session.level.value == 0) session.content session.spelled
    (Block.divide tokens.toList 0 #[])
  blocks.foldl (putBlock false) { session with spelled := stop, seen := seen }

/-- Up to which place a flush mode wants the input written. -/
def readyTo (session : Encoder) : Flush → Nat
  | .none => max session.spelled (session.content.size - (Token.maxCopy - 1))
  | _ => session.content.size

/-- Write an empty block of stored bytes, which ends at a byte boundary. -/
def putMarker (session : Encoder) : Encoder :=
  session.putBlock false (.stored [])

def closeStream (session : Encoder) : Encoder :=
  let session := session.putBlock true (.fixed [])
  let session := session.put (List.replicate (padding session.pending.length) false)
  { session.put (Bits.ofBytes (ByteOrder.big.encode 4 session.sums.value)) with closed := true }

def flushBy (session : Encoder) : Flush → Encoder
  | .none => session
  | .partly => session.putMarker
  | .sync => session.putMarker
  | .full => { session.putMarker with seen := .empty }
  | .finish => session.closeStream

def deliver (room : Nat) (session : Encoder) : Encoder × Bytes :=
  let output := session.queue.take room
  ({ session with
      queue := session.queue.drop room
      totalOut := session.totalOut + output.length },
    output)

/-!
## Steps
-/

def verdict (session : Encoder) (input output : Bytes) : Flush → Status
  | .none => if input.isEmpty && output.isEmpty then .stalled else .ok
  | .partly => .ok
  | .sync => .ok
  | .full => .ok
  | .finish => if session.queue.isEmpty then .streamEnd else .ok

def extend (session : Encoder) (input : Bytes) (flush : Flush) : Encoder :=
  if flush = .none ∧ input = [] then session
  else
    let session := session.openStream.absorb input
    (session.spellTo (session.readyTo flush)).flushBy flush

/--
Advance a session by an input slice and room for output.  Without room nothing
is done; a closed stream takes no more input.
-/
def step (session : Encoder) (input : Bytes) (room : Nat) (flush : Flush) : Reply :=
  if room = 0 then
    ⟨session, [], .ok .stalled⟩
  else if session.closed && session.queue.isEmpty then
    ⟨session, [], .ok (if flush = .finish then .streamEnd else .stalled)⟩
  else
    let session := if session.closed then session else session.extend input flush
    let (session, output) := session.deliver room
    ⟨session, output, .ok (session.verdict input output flush)⟩

def engine : Engine DeflateSettings Encoder where
  start := start
  step session input slice flush :=
    let reply := session.step input slice.length flush
    ⟨reply.session, Bytes.overwrite slice reply.output, reply.result⟩
  totalIn := totalIn
  totalOut := totalOut
  length_slice _ _ _ _ := Bytes.length_overwrite _ _

end Encoder

end BoundedZlib

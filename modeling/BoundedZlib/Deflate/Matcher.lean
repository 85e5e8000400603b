import BoundedZlib.Deflate.Block

/-!
# Finding copies

The encoder spells data by tokens.  It notes where each string of three bytes
was seen, and where such a string comes again it compares the bytes there with
the earlier ones.  A copy is taken only as far as the bytes agree, so the
tokens spell the data whatever places were noted.
-/

namespace BoundedZlib

/-- A map from strings of bits to the places where they were seen. -/
inductive Sightings where
  | empty
  | places (latest : List Nat)
  | fork (zero one : Sightings)
deriving Repr, Inhabited

namespace Sightings

def note (place : Nat) : Sightings → List Bool → Sightings
  | places latest, [] => places (place :: latest)
  | _, [] => places [place]
  | fork zero one, bit :: rest =>
      if bit then fork zero (note place one rest) else fork (note place zero rest) one
  | _, bit :: rest =>
      if bit then fork empty (note place empty rest) else fork (note place empty rest) empty

def find : Sightings → List Bool → List Nat
  | places latest, [] => latest
  | fork zero one, bit :: rest => if bit then one.find rest else zero.find rest
  | _, _ => []

end Sightings

namespace Matcher

def key? (data : Content) (place : Nat) : Option (List Bool) :=
  if place + Token.minLength ≤ data.size then
    some (Bits.ofByte (data.getD place 0) ++ Bits.ofByte (data.getD (place + 1) 0) ++
      Bits.ofByte (data.getD (place + 2) 0))
  else
    none

def see (data : Content) (seen : Sightings) (place : Nat) : Sightings :=
  match key? data place with
  | none => seen
  | some key => seen.note place key

/-- For how many bytes, at most so many, the data agrees at two places. -/
def agreement (data : Content) (here there : Nat) : (most : Nat) → Nat
  | 0 => 0
  | most + 1 =>
      if data.getD here 0 = data.getD there 0 then
        agreement data (here + 1) (there + 1) most + 1
      else
        0

/--
The longest copy among the first candidates, the nearest of equals, as length
and distance.  Candidates come nearest first.
-/
def longest (data : Content) (here most : Nat) :
    (effort : Nat) → List Nat → (best : Nat × Nat) → Nat × Nat
  | 0, _, best => best
  | _, [], best => best
  | effort + 1, there :: others, best =>
      if best.1 < most ∧ there < here ∧ here - there ≤ Token.maxDistance then
        let length := agreement data here there most
        longest data here most effort others
          (if best.1 < length then (length, here - there) else best)
      else
        best

def choose (effort : Nat) (data : Content) (seen : Sightings) (here left : Nat) : Token :=
  let candidates := match key? data here with
    | none => []
    | some key => seen.find key
  let (length, distance) :=
    longest data here (min left Token.maxCopy) effort candidates (0, 0)
  if Token.minLength ≤ length then
    .copy length distance
  else
    .literal (data.getD here 0)

/--
Spell the `left` bytes before a place where to stop, the first `covered` of which
the latest token already spells.
-/
def spell (effort : Nat) (data : Content) (stop : Nat) :
    (left covered : Nat) → Sightings → Array Token → Array Token × Sightings
  | 0, _, seen, tokens => (tokens, seen)
  | left + 1, covered + 1, seen, tokens =>
      spell effort data stop left covered (see data seen (stop - (left + 1))) tokens
  | left + 1, 0, seen, tokens =>
      let here := stop - (left + 1)
      let token := choose effort data seen here (left + 1)
      spell effort data stop left (token.size - 1) (see data seen here) (tokens.push token)

end Matcher

/-!
## Dividing into blocks
-/

namespace Block

def closeAt : Nat := 32768

def divide : List Token → (size : Nat) → (group : Array Token) → List (List Token)
  | [], _, group => if group.isEmpty then [] else [group.toList]
  | token :: rest, size, group =>
      let size := size + token.size
      let group := group.push token
      if closeAt ≤ size then
        group.toList :: divide rest 0 #[]
      else
        divide rest size group

def smaller (bytes : Bytes) (tokens : List Token) : Block :=
  if (bits false 0 (fixed tokens)).length ≤ (bits false 0 (stored bytes)).length then
    fixed tokens
  else
    stored bytes

def ofGroups (storeOnly : Bool) (data : Content) : (place : Nat) → List (List Token) → List Block
  | _, [] => []
  | place, tokens :: rest =>
      let stop := place + Token.totalSize tokens
      let bytes := (data.extract place stop).toList
      (if storeOnly then stored bytes else smaller bytes tokens) ::
        ofGroups storeOnly data stop rest

end Block

end BoundedZlib

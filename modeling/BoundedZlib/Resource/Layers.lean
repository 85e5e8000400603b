import BoundedZlib.Resource.Registry
import BoundedZlib.SingleShot.Deflate

/-!
# Layers

Packing wraps data in one layer.  Unpacking strips layer after layer until the
data no longer starts with the magic number; the flag in the header is not
consulted.  Nothing bounds the number of layers, so unpacking is given a limit
and says when it is reached.
-/

namespace BoundedZlib

namespace Resource

def pack (data : Bytes) (nameOffset : UInt32) (order : ByteOrder) : Except Error Bytes := do
  let payload ← deflateToBound data
  let inner? ← Header.read data order
  let header := Header.ofSizes (UInt64.ofNat payload.length) (UInt64.ofNat data.length) nameOffset
  let header := { header with terminal := if inner?.isNone then 1 else 0 }
  return header.write order ++ payload

/-- What unpacking refers to: decompressors, their names, and a byte order. -/
structure Image where
  registry : Registry := .builtin
  names : NameTable
  order : ByteOrder

namespace Image

def payload (header : Header) (data : Bytes) : Except Error Bytes :=
  if Header.length + header.size.toNat ≤ data.length then
    .ok ((data.drop Header.length).take header.size.toNat)
  else
    .error (.invalidHeader
      s!"payload of {header.size.toNat} bytes overruns {data.length}-byte resource")

def decompressor (image : Image) (header : Header) : Except Error Decompressor := do
  let name ← image.names.get header.nameOffset
  match image.registry.get? name with
  | none => .error (.unknownDecompressor name)
  | some decompressor => .ok decompressor

def checkSize (expected : Nat) (data : Bytes) : Except Error Unit :=
  if data.length = expected then .ok () else .error (.sizeMismatch expected data.length)

def strip? (image : Image) (data : Bytes) : Except Failure (Option Bytes) := do
  match ← Failure.lift (Header.read data image.order) with
  | none => return none
  | some header =>
      let decompressor ← Failure.lift (image.decompressor header)
      let payload ← Failure.lift (payload header data)
      let content ← decompressor.run payload header
      Failure.lift (checkSize header.contentSize.toNat content)
      return some content

/--
Strip all layers and check the size of what is left.  The result is none if
there are more layers than the limit.
-/
def unpack? (image : Image) (expected : Nat) :
    (limit : Nat) → (data : Bytes) → Option (Except Failure Bytes)
  | 0, _ => none
  | limit + 1, data =>
      match image.strip? data with
      | .error failure => some (.error failure)
      | .ok none => some (Failure.lift ((checkSize expected data).map fun () => data))
      | .ok (some content) => image.unpack? expected limit content

end Image

/-- A limit of layers that is not reached within the lifetime of any machine. -/
def ampleLayers : Nat := 4611686018427387904

end Resource

end BoundedZlib

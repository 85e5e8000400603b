import BoundedZlib.ByteOrder
import BoundedZlib.Error

/-!
# Resource headers

A compressed resource is wrapped in layers.  Each layer starts with a header of
29 bytes: a magic number, the size of the payload that follows, the size it
decompresses to, two offsets into a table of names, and a flag.  Numbers are in
the byte order of the image that holds the resource.
-/

namespace BoundedZlib

namespace Resource

structure Header where
  magic : UInt32
  size : UInt64
  contentSize : UInt64
  /-- Where the name of the decompressor is. -/
  nameOffset : UInt32
  configOffset : UInt32
  /-- Not zero if no further layer is inside. -/
  terminal : UInt8
deriving Repr, DecidableEq, Inhabited

namespace Header

def magicNumber : UInt32 := 0xCAFEFAFA

def length : Nat := 29

def ofSizes (size contentSize : UInt64) (nameOffset : UInt32) : Header where
  magic := magicNumber
  size := size
  contentSize := contentSize
  nameOffset := nameOffset
  configOffset := 0
  terminal := 1

def isTerminal (header : Header) : Bool :=
  header.terminal != 0

def write (header : Header) (order : ByteOrder) : Bytes :=
  order.encode 4 header.magic.toNat ++ order.encode 8 header.size.toNat ++
    order.encode 8 header.contentSize.toNat ++ order.encode 4 header.nameOffset.toNat ++
    order.encode 4 header.configOffset.toNat ++ [header.terminal]

def numberAt (bytes : Bytes) (order : ByteOrder) (place width : Nat) : Nat :=
  order.decode ((bytes.drop place).take width)

def hasMagic (bytes : Bytes) (order : ByteOrder) : Bool :=
  4 ≤ bytes.length && numberAt bytes order 0 4 == magicNumber.toNat

/--
The header that data starts with.  Data without the magic number has none; with
the magic number it has to have all of it.
-/
def read (bytes : Bytes) (order : ByteOrder) : Except Error (Option Header) :=
  if !hasMagic bytes order then
    .ok none
  else if bytes.length < length then
    .error (.invalidHeader s!"truncated: {bytes.length} of {length} bytes")
  else
    .ok (some
      { magic := UInt32.ofNat (numberAt bytes order 0 4)
        size := UInt64.ofNat (numberAt bytes order 4 8)
        contentSize := UInt64.ofNat (numberAt bytes order 12 8)
        nameOffset := UInt32.ofNat (numberAt bytes order 20 4)
        configOffset := UInt32.ofNat (numberAt bytes order 24 4)
        terminal := bytes.getD 28 0 })

@[simp] theorem length_write (header : Header) (order : ByteOrder) :
    (header.write order).length = length := by
  simp [write, length]

end Header

end Resource

end BoundedZlib

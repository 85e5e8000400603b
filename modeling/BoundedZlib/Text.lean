import BoundedZlib.Text.Invisible

/-!
# Quoted text

Text in double quotes, in two styles: as it is shown in a listing of values,
and as a string of a JSON document.
-/

namespace BoundedZlib

namespace Text

def hex (n : Nat) : List Char :=
  Nat.toDigits 16 n

def listedChar (c : Char) : List Char :=
  if c = '"' then ['\\', '"']
  else if c = '\\' then ['\\', '\\']
  else if c = '\n' then ['\\', 'n']
  else if c = '\r' then ['\\', 'r']
  else if c = '\t' then ['\\', 't']
  else if c.toNat = 0 then ['\\', '0']
  else if isInvisible c then
    ['\\', 'u', '\x7b'] ++ hex c.toNat ++ ['\x7d']
  else [c]

def jsonChar (c : Char) : List Char :=
  if c = '"' then ['\\', '"']
  else if c = '\\' then ['\\', '\\']
  else if c = '\n' then ['\\', 'n']
  else if c = '\r' then ['\\', 'r']
  else if c = '\t' then ['\\', 't']
  else if c.toNat = 8 then ['\\', 'b']
  else if c.toNat = 12 then ['\\', 'f']
  else if c.toNat < 16 then ['\\', 'u', '0', '0', '0'] ++ hex c.toNat
  else if c.toNat < 32 then ['\\', 'u', '0', '0'] ++ hex c.toNat
  else [c]

def quoted (style : Char → List Char) (text : String) : String :=
  String.ofList ('"' :: (text.toList.flatMap style ++ ['"']))

def listed (text : String) : String :=
  quoted listedChar text

def json (text : String) : String :=
  quoted jsonChar text

end Text

end BoundedZlib

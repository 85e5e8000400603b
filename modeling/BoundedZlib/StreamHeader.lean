import BoundedZlib.Bits
import BoundedZlib.Text

/-!
# The header of a stream, to be shown

The first two bytes of a zlib stream, taken apart for a report.  Any two bytes
can be taken apart; whether they make up a header is one of the findings.
-/

namespace BoundedZlib

structure StreamHeader where
  method : Nat
  windowSize : Nat
  level : String
  presetDictionary : Bool
  checkOk : Bool
deriving Repr, DecidableEq

namespace StreamHeader

def levelName : Nat → String
  | 0 => "fastest"
  | 1 => "fast"
  | 2 => "default"
  | _ => "maximum"

def ofBytes? : Bytes → Option StreamHeader
  | methodByte :: flagsByte :: _ =>
      let method := methodByte.toNat
      let flags := flagsByte.toNat
      some
        { method := method % 16
          windowSize := 1 <<< (method / 16 + 8)
          level := levelName (flags / 64)
          presetDictionary := flags / 32 % 2 == 1
          checkOk := (method * 256 + flags) % 31 == 0 }
  | _ => none

/-- Whether the method, the window and the check are those of a zlib stream. -/
def isValid (header : StreamHeader) : Bool :=
  header.method == 8 && header.windowSize ≤ 32768 && header.checkOk

/-!
## Reports
-/

def report (header : StreamHeader) (file : String) (size : Nat) : List String :=
  [ "Stream Information",
    "==================",
    s!"File: {file}",
    s!"Compressed size: {size} bytes",
    "",
    "zlib Header:",
    s!"  Method: {header.method}" ++ (if header.method = 8 then " (deflate)" else ""),
    s!"  Window: {header.windowSize} bytes",
    s!"  Level: {header.level}",
    "  Preset dictionary: " ++ (if header.presetDictionary then "yes" else "no"),
    "  Header check: " ++ (if header.checkOk then "OK" else "FAILED") ] ++
  (if header.isValid then [] else ["", "Not a valid zlib stream."])

def jsonBool (value : Bool) : String :=
  if value then "true" else "false"

def jsonReport (header : StreamHeader) (file : String) (size : Nat) : List String :=
  [ "\x7b",
    "  \"file\": " ++ Text.json file ++ ",",
    s!"  \"compressed_size\": {size},",
    "  \"valid\": " ++ jsonBool header.isValid ++ ",",
    s!"  \"method\": {header.method},",
    s!"  \"window_size\": {header.windowSize},",
    "  \"level\": " ++ Text.json header.level ++ ",",
    "  \"preset_dictionary\": " ++ jsonBool header.presetDictionary ++ ",",
    "  \"check_ok\": " ++ jsonBool header.checkOk,
    "\x7d" ]

end StreamHeader

end BoundedZlib

import BoundedZlib.Resource.Header
import BoundedZlib.Resource.NameTable
import BoundedZlib.SingleShot.Inflate
import BoundedZlib.Text

/-!
# Decompressors by name

A registry holds decompressors, the latest first.  A name means the latest
decompressor registered under it.
-/

namespace BoundedZlib

namespace Resource

structure Decompressor where
  name : String
  run : (payload : Bytes) → Header → Except Failure Bytes

namespace Decompressor

def zipName : String := "zip"

def zip : Decompressor where
  name := zipName
  run payload header := inflateToSize payload header.contentSize.toNat

end Decompressor

/-- Decompressors, the latest first. -/
structure Registry where
  decompressors : List Decompressor := []

namespace Registry

/-- Register a decompressor; it hides earlier ones of its name. -/
def register (registry : Registry) (decompressor : Decompressor) : Registry :=
  ⟨decompressor :: registry.decompressors⟩

def builtin : Registry :=
  register {} .zip

def get? (registry : Registry) (name : String) : Option Decompressor :=
  registry.decompressors.find? (·.name == name)

def names (registry : Registry) : List String :=
  registry.decompressors.map (·.name)

def describe (registry : Registry) : String :=
  "Decompressors \x7b names: [" ++ ", ".intercalate (registry.names.map Text.listed) ++ "] \x7d"

end Registry

end Resource

end BoundedZlib

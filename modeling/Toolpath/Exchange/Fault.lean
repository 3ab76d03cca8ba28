/-!
# Faults of exchanged data

Why a text in some format is not the written form of a type. The formats share one list of faults,
so that settings can be read from each of them in one way.
-/

namespace Toolpath

/-- Why a text is not the written form of a type. -/
inductive Fault where
  | malformed
  | unexpected (wanted : String)
  | outOfRange
  | missing (field : String)
  | repeated
  /-- An array holds more items than the record has fields. -/
  | excess
  | unknownVariant
deriving DecidableEq, Repr

def Fault.message : Fault → String
  | .malformed => "malformed text"
  | .unexpected wanted => "expected " ++ wanted
  | .outOfRange => "number out of range"
  | .missing field => "missing field " ++ field
  | .repeated => "repeated field"
  | .excess => "too many items"
  | .unknownVariant => "unknown variant"

end Toolpath

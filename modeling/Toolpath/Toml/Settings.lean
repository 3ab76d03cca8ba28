import Toolpath.Decimal.Style
import Toolpath.Settings.Form
import Toolpath.Toml.Printer
import Toolpath.Toml.Reader

/-!
# Settings in a table file

Sections are tables, settings their members. Numbers are written as doubles, and an integer will do
where a number is wanted. A count beyond the greatest integer of the format cannot be written.
-/

namespace Toolpath.Toml

open Decimal

/-- Numbers are written with the fewest digits that identify the double, never with an exponent, and
whole ones with a point and a zero. -/
def numberStyle : Style := ⟨none, none, true, .up⟩

def Scalar.ofSingle (x : Float32) : Scalar :=
  if x.isNaN then .notANumber
  else if x.isInf then .infinity (Single.isNegative x)
  else .decimal (numberStyle.double (Single.widen x))

def ofSetting : Setting → Except Fault Scalar
  | .number x => .ok (.ofSingle x)
  | .count n => if (n : Int) ≤ greatestInteger then .ok (.integer n) else .error .outOfRange
  | .flag b => .ok (.boolean b)

def ofEntries (entries : List (String × Setting)) : Except Fault (List (String × Scalar)) :=
  entries.mapM fun (name, setting) => (ofSetting setting).map fun s => (name, s)

def renderConfig (c : Config) : Except Fault String := do
  let sections ← c.sections.mapM fun (name, entries) =>
    (ofEntries entries).map fun scalars => (name, scalars)
  return String.ofList (renderSections sections)

def Scalar.toSingle? : Scalar → Option Float32
  | .integer n => some (Numeral.ofInt n).toSingle
  | .decimal n => some (Single.ofDouble n.toDouble)
  | .infinity negative => some (if negative then -Single.infinity else Single.infinity)
  | .notANumber => some Single.notANumber
  | .boolean _ => none

def decodeNumber : Value → Except Fault Float32
  | .scalar s =>
    match s.toSingle? with
    | some x => .ok x
    | none => .error (.unexpected "a number")
  | _ => .error (.unexpected "a number")

def decodeCount (limit : Nat) : Value → Except Fault Nat
  | .scalar (.integer n) => if 0 ≤ n && n ≤ limit then .ok n.toNat else .error .outOfRange
  | _ => .error (.unexpected "a natural number")

def decodeFlag : Value → Except Fault Bool
  | .scalar (.boolean b) => .ok b
  | _ => .error (.unexpected "a truth value")

/-- The fields of a record with these names: members of a table, or the items of an array in order.
Members and items beyond the names are passed over. A moment is a record without any of them. -/
def decodeFields (names : List String) : Value → Except Fault (List (String × Value))
  | .table _ members => .ok (members.filter fun m => names.contains m.1)
  | .array items => .ok (names.zip items)
  | .tables items => .ok (names.zip (items.map (.table .header)))
  | .moment => .ok []
  | _ => .error (.unexpected "a record")

instance : Spelling Value where
  number := decodeNumber
  count := decodeCount
  flag := decodeFlag
  fields := decodeFields

def parseConfig (text : String) : Except Fault Config :=
  match read? text with
  | some v => Config.read v
  | none => .error .malformed

end Toolpath.Toml

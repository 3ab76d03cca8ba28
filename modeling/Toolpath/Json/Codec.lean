import Toolpath.Decimal.Style
import Toolpath.Exchange.Fault
import Toolpath.Json.Printer
import Toolpath.Json.Reader

/-!
# Typed JSON

A `Codec` writes a type as a JSON value and reads it back. Records are objects, or arrays of their
fields in order; variants are their names, or objects with their name as the only key.
-/

namespace Toolpath.Json

open Decimal

class Codec (α : Type) where
  encode : α → Value
  decode : Value → Except Fault α

export Codec (encode decode)

/-- Numbers are written with the fewest digits, whole ones with a point and a zero, and those with
a leading digit below `10 ^ -6` or above `10 ^ 12` with an exponent. -/
def numberStyle : Style := ⟨some (-6), some 12, true, .toEven⟩

def ofSingle (x : Float32) : Value :=
  if x.isFinite then .number (numberStyle.single x) else .null

def maxSignificand : Nat := 18446744073709551615

/-- Digits taken into a significand for as long as it does not grow beyond its limit, and the count
of those taken. -/
def takeDigits (significand : Nat) : List Char → Nat × Nat
  | [] => (significand, 0)
  | d :: ds =>
    let next := 10 * significand + digitValue d
    if maxSignificand < next then (significand, 0)
    else
      let (s, n) := takeDigits next ds
      (s, n + 1)

def powerOfTen (n : Nat) : Float := Double.ofRatio false ⟨Nat.pow 10 n, 1⟩

/-- A double scaled by a power of ten, one multiplication or division at a time. `none` stands for
a result that is not finite. Three divisions bring every significand to zero, which bounds the
steps. -/
def scaleByTen : Nat → Float → Int → Option Float
  | 0, f, _ => some f
  | fuel + 1, f, e =>
    if e.natAbs ≤ 308 then
      if 0 ≤ e then
        let scaled := f * powerOfTen e.natAbs
        if scaled.isInf then none else some scaled
      else some (f / powerOfTen e.natAbs)
    else if f == 0 then some f
    else if 0 ≤ e then none
    else scaleByTen fuel (f / powerOfTen 308) (e + 308)

/-- The double that a numeral is read as: the digits that fit a 64-bit significand, scaled by a
power of ten. It may be off by a unit in the last place. -/
def toDouble? (n : Numeral) : Option Float :=
  let (s, taken) := takeDigits 0 n.whole
  let skipped := n.whole.length - taken
  let (s, places) := takeDigits s (n.fraction.getD [])
  let e : Int := n.exponent.getD 0 + skipped - places
  (scaleByTen 4 (UInt64.ofNat s).toFloat e).map fun f => if n.negative then -f else f

/-- An integer numeral that fits 64 bits, signed or not, and is not a negative zero. -/
def fitsInteger (n : Numeral) : Bool :=
  n.isInteger &&
    if n.negative then n.toInt ≠ 0 && -9223372036854775808 ≤ n.toInt else n.toInt ≤ maxSignificand

/-- The single-precision number that a numeral is read as. Integers of 64 bits are rounded once;
all others go through a double. -/
def toSingle? (n : Numeral) : Option Float32 :=
  if fitsInteger n then some n.toSingle else (toDouble? n).map Single.ofDouble

instance : Codec Float32 where
  encode := ofSingle
  decode
    | .number n =>
      match toSingle? n with
      | some x => .ok x
      | none => .error .outOfRange
    | _ => .error (.unexpected "a number")

instance : Codec Bool where
  encode := .bool
  decode
    | .bool b => .ok b
    | _ => .error (.unexpected "a truth value")

/-- A natural number up to a limit. It is written without fraction, exponent or sign. -/
def decodeNatural (limit : Nat) : Value → Except Fault Nat
  | .number n =>
    if n.isInteger && !n.negative then
      if ofDigits n.whole ≤ limit then .ok (ofDigits n.whole) else .error .outOfRange
    else .error (.unexpected "a natural number")
  | _ => .error (.unexpected "a natural number")

instance : Codec UInt32 where
  encode n := .nat n.toNat
  decode v := (decodeNatural 4294967295 v).map UInt32.ofNat

instance : Codec UInt64 where
  encode n := .nat n.toNat
  decode v := (decodeNatural 18446744073709551615 v).map UInt64.ofNat

instance : Codec Nat where
  encode := .nat
  decode := decodeNatural 18446744073709551615

instance : Codec Char where
  encode c := .text (String.ofList [c])
  decode
    | .string (some s) =>
      match s.toList with
      | [c] => .ok c
      | _ => .error (.unexpected "one character")
    | _ => .error (.unexpected "one character")

instance {α : Type} [Codec α] : Codec (List α) where
  encode items := .array (items.map encode)
  decode
    | .array items => items.mapM decode
    | _ => .error (.unexpected "an array")

instance {α : Type} [Codec α] : Codec (Option α) where
  encode
    | some a => encode a
    | none => .null
  decode
    | .null => .ok none
    | v => (decode v).map some

structure Fields where
  /-- The fields were given in order and not by name. -/
  inOrder : Bool
  given : List (String × Value)

namespace Fields

def textKeys? (members : List (Content × Value)) : Option (List (String × Value)) :=
  members.mapM fun (key, v) => key.map fun k => (k, v)

def distinct : List (String × Value) → Bool
  | [] => true
  | (key, _) :: later => !later.any (fun m => m.1 == key) && distinct later

/-- The fields of a record with these names. Keys that name no field are passed over, and a field
may be given once only. -/
def ofValue (names : List String) : Value → Except Fault Fields
  | .array items =>
    if names.length < items.length then .error .excess else .ok ⟨true, names.zip items⟩
  | .object members =>
    match textKeys? members with
    | none => .error .malformed
    | some members =>
      let known := members.filter fun m => names.contains m.1
      if distinct known then .ok ⟨false, known⟩ else .error .repeated
  | _ => .error (.unexpected "a record")

def field {α : Type} (fields : Fields) (name : String) (read : Value → Except Fault α) :
    Except Fault α :=
  match fields.given.lookup name with
  | some v => read v
  | none => .error (.missing name)

def required {α : Type} [Codec α] (fields : Fields) (name : String) : Except Fault α :=
  fields.field name decode

/-- A field that may be left out by name, and is empty then. -/
def optional {α : Type} [Codec α] (fields : Fields) (name : String) : Except Fault (Option α) :=
  match fields.given.lookup name with
  | some v => decode v
  | none => if fields.inOrder then .error (.missing name) else .ok none

end Fields

/-- The name of the variant that a value stands for, and what it carries. A name alone carries
nothing. -/
def variant? : Value → Except Fault (String × Option Value)
  | .string (some name) => .ok (name, none)
  | .object [(some name, content)] => .ok (name, some content)
  | _ => .error (.unexpected "a variant")

def decodeName {α : Type} (names : List (String × α)) (v : Value) : Except Fault α := do
  let (name, content) ← variant? v
  match content, names.lookup name with
  | none, some a => .ok a
  | some .null, some a => .ok a
  | some _, some _ => .error (.unexpected "nothing")
  | _, none => .error .unknownVariant

def parse {α : Type} [Codec α] (text : String) : Except Fault α :=
  match read? text with
  | some v => decode v
  | none => .error .malformed

end Toolpath.Json

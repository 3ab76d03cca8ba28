import Toolpath.Decimal.Numeral

/-!
# JSON values

A value keeps what a typed reader may ask for: numbers as they are written, and the members of an
object in order with their repetitions.
-/

namespace Toolpath.Json

open Decimal

/-- The content of a string. `none` stands for one whose escapes name half of a surrogate pair,
which is well formed and spells no text. -/
abbrev Content := Option String

inductive Value where
  | null
  | bool (b : Bool)
  | number (n : Numeral)
  | string (s : Content)
  | array (items : List Value)
  | object (members : List (Content × Value))

namespace Value

def text (s : String) : Value := .string (some s)

def nat (n : Nat) : Value := .number (.ofNat n)

def int (n : Int) : Value := .number (.ofInt n)

def record (members : List (String × Value)) : Value :=
  .object (members.map fun (key, v) => (some key, v))

end Value

end Toolpath.Json

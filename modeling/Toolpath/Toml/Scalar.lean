import Toolpath.Decimal.Numeral
import Toolpath.Text.Hex

/-!
# Scalars of a table file

Numbers, truth values and moments of time, as they are written after the sign of equality. Each
reader takes the longest scalar of its kind from the front of a text and hands back the rest; what
may follow a scalar is checked by whoever reads the line.
-/

namespace Toolpath.Toml

open Decimal

inductive Scalar where
  | integer (n : Int)
  | decimal (n : Numeral)
  | infinity (negative : Bool)
  | notANumber
  | boolean (b : Bool)
deriving DecidableEq, Repr

def leastInteger : Int := -9223372036854775808

def greatestInteger : Int := 9223372036854775807

def integer? (n : Int) : Option Scalar :=
  if leastInteger ≤ n && n ≤ greatestInteger then some (.integer n) else none

/-- A decimal that does not round to positive infinity. A negative one may round to minus
infinity. -/
def decimal? (n : Numeral) : Option Scalar :=
  if (n.nearest Binary.double).isNone && !n.negative then none else some (.decimal n)

/-- The digits at the front of a text, and the rest. An underscore between two digits is passed
over. -/
def groupedDigits (isDigit : Char → Bool) : List Char → List Char × List Char
  | [] => ([], [])
  | c :: cs =>
    if isDigit c then
      let (ds, rest) := groupedDigits isDigit cs
      (c :: ds, rest)
    else if c = '_' && cs.head?.any isDigit then groupedDigits isDigit cs
    else ([], c :: cs)

def digits? (isDigit : Char → Bool) (cs : List Char) : Option (List Char × List Char) :=
  if cs.head?.any isDigit then some (groupedDigits isDigit cs) else none

/-- The digits before the point: a zero alone, or a row that starts with another digit. -/
def wholeDigits? : List Char → Option (List Char × List Char)
  | '0' :: rest => some (['0'], rest)
  | cs => digits? Char.isDigit cs

def fraction? : List Char → Option (Option (List Char) × List Char)
  | '.' :: cs => (digits? Char.isDigit cs).map fun (ds, rest) => (some ds, rest)
  | cs => some (none, cs)

def exponent? : List Char → Option (Option Int × List Char)
  | [] => some (none, [])
  | c :: cs =>
    if c = 'e' || c = 'E' then
      let (negative, cs) := splitSign cs
      (digits? Char.isDigit cs).map fun (ds, rest) =>
        (some (if negative then -(ofDigits ds : Int) else ofDigits ds), rest)
    else some (none, c :: cs)

def ofNumeral? (n : Numeral) : Option Scalar :=
  if n.isInteger then integer? n.toInt else decimal? n

def decimalNumber? (cs : List Char) : Option (Scalar × List Char) := do
  let (negative, cs) := splitSign cs
  let (whole, cs) ← wholeDigits? cs
  let (fraction, cs) ← fraction? cs
  let (exponent, cs) ← exponent? cs
  let scalar ← ofNumeral? ⟨negative, whole, fraction, exponent⟩
  some (scalar, cs)

def isDigitOf (base : Nat) (c : Char) : Bool := (Text.hexValue? c).any (· < base)

def inBase? (base : Nat) (cs : List Char) : Option (Scalar × List Char) := do
  let (ds, rest) ← digits? (isDigitOf base) cs
  let n := ds.foldl (fun n d => base * n + (Text.hexValue? d).getD 0) 0
  let scalar ← integer? n
  some (scalar, rest)

/-- The words for what has no digits, with a sign before them or without one. -/
def special? (cs : List Char) : Option (Scalar × List Char) :=
  match splitSign cs with
  | (negative, 'i' :: 'n' :: 'f' :: rest) => some (.infinity negative, rest)
  | (_, 'n' :: 'a' :: 'n' :: rest) => some (.notANumber, rest)
  | _ => none

def scalar? : List Char → Option (Scalar × List Char)
  | 't' :: 'r' :: 'u' :: 'e' :: rest => some (.boolean true, rest)
  | 'f' :: 'a' :: 'l' :: 's' :: 'e' :: rest => some (.boolean false, rest)
  | '0' :: 'x' :: rest => inBase? 16 rest
  | '0' :: 'o' :: rest => inBase? 8 rest
  | '0' :: 'b' :: rest => inBase? 2 rest
  | cs => special? cs <|> decimalNumber? cs

end Toolpath.Toml

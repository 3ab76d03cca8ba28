import Toolpath.Binary.Double

/-!
# Decimal numerals

A numeral is a decimal number as it is written: sign, whole digits, fraction digits and exponent.
`Numeral.toSingle` and `Numeral.toDouble` give the nearest binary number. `Numeral.free?` reads the
free form of a number, in which a digit on one side of the point suffices.
-/

namespace Toolpath.Decimal

open Binary

def digitValue (c : Char) : Nat := c.toNat - '0'.toNat

def ofDigits (ds : List Char) : Nat := ds.foldl (fun n c => 10 * n + digitValue c) 0

def digitsOf (n : Nat) : List Char := Nat.toDigits 10 n

structure Numeral where
  negative : Bool
  whole : List Char
  fraction : Option (List Char)
  exponent : Option Int
deriving DecidableEq, Repr

namespace Numeral

def ofInt (n : Int) : Numeral := ⟨n < 0, digitsOf n.natAbs, none, none⟩

def ofNat (n : Nat) : Numeral := ⟨false, digitsOf n, none, none⟩

def isInteger (n : Numeral) : Bool := n.fraction.isNone && n.exponent.isNone

/-- The written form: a point before the fraction, and `e` with a sign before the exponent. -/
def render (n : Numeral) : List Char :=
  (if n.negative then ['-'] else []) ++ n.whole
    ++ (match n.fraction with
      | some ds => '.' :: ds
      | none => [])
    ++ (match n.exponent with
      | some e => 'e' :: (if e < 0 then '-' else '+') :: digitsOf e.natAbs
      | none => [])

def digits (n : Numeral) : List Char := n.whole ++ n.fraction.getD []

def significand (n : Numeral) : Nat := ofDigits n.digits

def scale (n : Numeral) : Int := n.exponent.getD 0 - (n.fraction.getD []).length

def leadingDigits (n : Numeral) : List Char := n.digits.dropWhile (· == '0')

/-- A numeral whose leading digit stands further than this from the point is out of reach of every
format: too large for it above, and below half of its least magnitude on the other side. -/
def reach : Int := 400

def ratio (n : Numeral) : Ratio :=
  ⟨n.significand * Nat.pow 10 n.scale.toNat, Nat.pow 10 (-n.scale).toNat⟩

/-- The magnitude of a format nearest to the numeral. The two tests by `reach` only spare the
arithmetic on enormous powers of ten. -/
def nearest (f : Format) (n : Numeral) : Option Magnitude :=
  let place : Int := n.scale + n.leadingDigits.length
  if n.leadingDigits.isEmpty || place < -reach then some ⟨0, f.lowest⟩
  else if reach < place then none
  else f.nearest n.ratio

def toSingle (n : Numeral) : Float32 :=
  let bits := match n.nearest single with
    | some m => single.encode m
    | none => 0x7F800000
  Float32.ofBits (UInt32.ofNat (if n.negative then bits + 0x80000000 else bits))

def toDouble (n : Numeral) : Float :=
  let bits := match n.nearest double with
    | some m => double.encode m
    | none => 0x7FF0000000000000
  Float.ofBits (UInt64.ofNat (if n.negative then bits + 0x8000000000000000 else bits))

def toInt (n : Numeral) : Int :=
  if n.negative then -(ofDigits n.whole : Int) else ofDigits n.whole

end Numeral

def splitSign : List Char → Bool × List Char
  | '-' :: cs => (true, cs)
  | '+' :: cs => (false, cs)
  | cs => (false, cs)

/-- An exponent without its mark: a sign that may be absent, and at least one digit up to the
end. -/
def exponent? (cs : List Char) : Option Int :=
  let (negative, ds) := splitSign cs
  if ds.isEmpty || !ds.all Char.isDigit then none
  else some (if negative then -(ofDigits ds : Int) else ofDigits ds)

def someDigits : List Char → Option (List Char)
  | [] => none
  | ds => some ds

/-- The free form of a decimal number: a sign that may be absent, digits with at most one point and
a digit on at least one side of it, and an exponent that may be absent. -/
def Numeral.free? (cs : List Char) : Option Numeral :=
  let (negative, cs) := splitSign cs
  let (whole, cs) := cs.span Char.isDigit
  let (fraction, cs) := match cs with
    | '.' :: rest => rest.span Char.isDigit
    | _ => ([], cs)
  if whole.isEmpty && fraction.isEmpty then none
  else match cs with
    | [] => some ⟨negative, whole, someDigits fraction, none⟩
    | c :: rest =>
      if c = 'e' || c = 'E' then
        (exponent? rest).map fun e => ⟨negative, whole, someDigits fraction, some e⟩
      else none

def special? (cs : List Char) : Option Float32 :=
  let (negative, word) := splitSign cs
  let word := word.map Char.toLower
  if word = ['n', 'a', 'n'] then some Single.notANumber
  else if word = ['i', 'n', 'f'] || word = ['i', 'n', 'f', 'i', 'n', 'i', 't', 'y'] then
    some (if negative then -Single.infinity else Single.infinity)
  else none

def single? (cs : List Char) : Option Float32 :=
  match Numeral.free? cs with
  | some n => some n.toSingle
  | none => special? cs

end Toolpath.Decimal

import Toolpath.Decimal.Shortest

/-!
# Ways to write a number

A `Style` holds the decisions of a format that writes numbers with the fewest digits; `Style.single`
and `Style.double` write by it. `fixed` writes a number with a set count of places instead.
-/

namespace Toolpath.Decimal

open Binary

structure Style where
  /-- The least exponent of the leading digit that is written positionally, if there is one. -/
  least : Option Int
  /-- The greatest exponent of the leading digit that is written positionally, if there is one. -/
  greatest : Option Int
  /-- A whole number is written with a point and a zero. -/
  pointZero : Bool
  tie : Tie
deriving DecidableEq, Repr

def zeros (n : Nat) : List Char := List.replicate n '0'

def Style.noFraction (s : Style) : Option (List Char) := if s.pointZero then some ['0'] else none

def Style.positional (s : Style) (negative : Bool) (d : Digits) : Numeral :=
  if d.exponent < 0 then
    ⟨negative, ['0'], some (zeros (d.exponent.natAbs - 1) ++ d.digits), none⟩
  else
    let wholeLength := d.exponent.toNat + 1
    if d.digits.length ≤ wholeLength then
      ⟨negative, d.digits ++ zeros (wholeLength - d.digits.length), s.noFraction, none⟩
    else ⟨negative, d.digits.take wholeLength, some (d.digits.drop wholeLength), none⟩

def scientific (negative : Bool) (d : Digits) : Numeral :=
  ⟨negative, d.digits.take 1, someDigits (d.digits.drop 1), some d.exponent⟩

def Style.layout (s : Style) (negative : Bool) (d : Digits) : Numeral :=
  if s.least.all (· ≤ d.exponent) && s.greatest.all (d.exponent ≤ ·) then s.positional negative d
  else scientific negative d

def Style.magnitude (s : Style) (f : Format) (negative : Bool) (m : Magnitude) : Numeral :=
  if m.significand = 0 then ⟨negative, ['0'], s.noFraction, none⟩
  else s.layout negative (shortest f s.tie m)

def Style.single (s : Style) (x : Float32) : Numeral :=
  s.magnitude Binary.single (Single.isNegative x) (Single.magnitude x)

def Style.double (s : Style) (x : Float) : Numeral :=
  s.magnitude Binary.double (Double.isNegative x) (Double.magnitude x)

def specialText? (x : Float32) : Option String :=
  if x.isNaN then some "NaN"
  else if x.isInf then some (if Single.isNegative x then "-inf" else "inf")
  else none

def padLeft (width : Nat) (fill : Char) (cs : List Char) : List Char :=
  List.replicate (width - cs.length) fill ++ cs

/-- A number with a set count of places after the point. Its exact value is rounded, a half going
to the even neighbour, and the sign is kept even of a zero. -/
def fixed (places : Nat) (x : Float32) : String :=
  match specialText? x with
  | some word => word
  | none =>
    let r := (Single.magnitude x).ratio
    let ds := padLeft (places + 1) '0' (digitsOf (Ratio.round ⟨r.num * Nat.pow 10 places, r.den⟩))
    let whole := ds.take (ds.length - places)
    let fraction := ds.drop (ds.length - places)
    String.ofList (Numeral.render ⟨Single.isNegative x, whole, someDigits fraction, none⟩)

end Toolpath.Decimal

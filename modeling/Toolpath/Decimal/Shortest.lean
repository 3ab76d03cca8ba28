import Toolpath.Decimal.Numeral

/-!
# The fewest digits that identify a number

`shortest` chooses, among the decimals that round to a binary magnitude, one with the fewest digits
and of those the nearest. The search tries the two neighbours of the exact value on coarser and
then finer decimal grids; a `Tie` decides between neighbours that are equally near.
-/

namespace Toolpath.Decimal

open Binary

/-- A decimal value by its digits, the first of which has the weight `10 ^ exponent`. -/
structure Digits where
  digits : List Char
  exponent : Int
deriving DecidableEq, Repr

inductive Tie where
  | toEven
  | up
deriving DecidableEq, Repr

def scaled (n : Nat) (e : Int) : Ratio := ⟨n * Nat.pow 10 e.toNat, Nat.pow 10 (-e).toNat⟩

def scaleFrom (r : Ratio) : Nat → Int → Int
  | 0, e => e
  | fuel + 1, e => if r.below (scaled 1 e) then e else scaleFrom r fuel (e + 1)

/-- The least `e` with the magnitude below `10 ^ e`. The binary exponent estimates it from below,
short by at most two. -/
def scaleOf (m : Magnitude) : Int :=
  scaleFrom m.ratio 4 (Int.fdiv (((m.significand.log2 : Int) + m.exponent) * 30103) 100000 - 1)

/-- The neighbour of the magnitude on the grid of multiples of `10 ^ e` that reads back to it, the
nearer one where both do. -/
def onGrid? (f : Format) (tie : Tie) (m : Magnitude) (e : Int) : Option Nat :=
  let exact := m.ratio
  let unit := scaled 1 e
  let low := exact.num * unit.den / (exact.den * unit.num)
  let lowReads := f.readsBack m (scaled low e)
  let highReads := f.readsBack m (scaled (low + 1) e)
  let middle := scaled (2 * low + 1) e
  let double : Ratio := ⟨2 * exact.num, exact.den⟩
  if lowReads && highReads then
    if double.below middle then some low
    else if middle.below double then some (low + 1)
    else match tie with
      | .up => some (low + 1)
      | .toEven => some (if low % 2 = 0 then low else low + 1)
  else if lowReads then some low
  else if highReads then some (low + 1)
  else none

def dropTrailingZeros (ds : List Char) : List Char := (ds.reverse.dropWhile (· == '0')).reverse

def Digits.ofScaled (n : Nat) (e : Int) : Digits :=
  let ds := digitsOf n
  ⟨dropTrailingZeros ds, e + ds.length - 1⟩

def exactDigits (m : Magnitude) : Digits :=
  if 0 ≤ m.exponent then .ofScaled m.ratio.num 0
  else .ofScaled (m.significand * Nat.pow 5 m.exponent.natAbs) m.exponent

/-- The shortest digits of a magnitude other than zero. Seventeen digits suffice for every format
of at most 64 bits; should none be found, all digits are given. -/
def shortest (f : Format) (tie : Tie) (m : Magnitude) : Digits :=
  let scale := scaleOf m
  let found := (List.range 17).findSome? fun count =>
    let e := scale - (count + 1 : Nat)
    (onGrid? f tie m e).map fun n => Digits.ofScaled n e
  found.getD (exactDigits m)

end Toolpath.Decimal

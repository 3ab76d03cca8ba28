import Toolpath.Binary.Format

/-!
# Single-precision numbers

Operations on `Float32` beyond its arithmetic: comparison that passes over what is not a number,
rounding to whole numbers, and the step between a number and its exact value.
-/

namespace Toolpath.Single

open Binary

def pi : Float32 := 3.14159265358979323846

def tau : Float32 := 6.28318530717958647692

def quarterTurn : Float32 := 1.57079632679489661923

def epsilon : Float32 := Float32.ofBits 0x34000000

def largest : Float32 := Float32.ofBits 0x7F7FFFFF

def leastNormal : Float32 := Float32.ofBits 0x00800000

def infinity : Float32 := Float32.ofBits 0x7F800000

def notANumber : Float32 := Float32.ofBits 0x7FC00000

def isNegative (x : Float32) : Bool := 0x80000000 ≤ x.toBits.toNat

def magnitude (x : Float32) : Magnitude := single.decode (x.toBits.toNat % 0x80000000)

/-- The number nearest to a signed quotient, and an infinity beyond the greatest one. -/
def ofRatio (negative : Bool) (r : Ratio) : Float32 :=
  let bits := match single.nearest r with
    | some m => single.encode m
    | none => 0x7F800000
  Float32.ofBits (UInt32.ofNat (if negative then bits + 0x80000000 else bits))

/-- The lesser of two numbers. One that is not a number yields to the other, and of two equal ones
the first is taken. -/
def lesser (a b : Float32) : Float32 := if a.isNaN then b else if b < a then b else a

/-- The greater of two numbers. One that is not a number yields to the other, and of two equal ones
the first is taken. -/
def greater (a b : Float32) : Float32 := if a.isNaN then b else if a < b then b else a

/-- The nearest number from `low` to `high`; what is not a number passes. -/
def clamp (low high x : Float32) : Float32 :=
  let raised := if x < low then low else x
  if high < raised then high else raised

def signum (x : Float32) : Float32 :=
  if x.isNaN then x else if isNegative x then -1 else 1

/-- The sum of a list from the left. It starts at negative zero, which is the sum of no numbers. -/
def sum (xs : List Float32) : Float32 := xs.foldl (· + ·) (-0.0)

/-- A key that orders numbers by value, and negative zero before positive zero. -/
def orderKey (x : Float32) : Int :=
  if isNegative x then 0x7FFFFFFF - (x.toBits.toNat : Int) else x.toBits.toNat

/-- The ways to a whole number: the one below, the one above, or the nearest with a half going away
from zero. -/
inductive Rounding where
  | down
  | up
  | nearest
deriving DecidableEq, Repr

def whole (mode : Rounding) (x : Float32) : Int :=
  let m := magnitude x
  let signed : Int := if isNegative x then -(m.ratio.num : Int) else m.ratio.num
  let den : Int := m.ratio.den
  match mode with
  | .down => Int.fdiv signed den
  | .up => -Int.fdiv (-signed) den
  | .nearest =>
    let size : Int := (2 * (m.ratio.num : Int) + den) / (2 * den)
    if isNegative x then -size else size

/-- A number rounded to a whole one from `low` to `high`. What lies outside goes to the nearer end,
and what is not a number to zero. -/
def wholeWithin (low high : Int) (mode : Rounding) (x : Float32) : Int :=
  if x.isNaN then 0
  else if x.isInf then (if isNegative x then low else high)
  else max low (min high (whole mode x))

def toSigned32 (mode : Rounding) (x : Float32) : Int := wholeWithin (-2147483648) 2147483647 mode x

def toNatural32 (mode : Rounding) (x : Float32) : Nat := (wholeWithin 0 4294967295 mode x).toNat

end Toolpath.Single

/-!
# Binary formats

A binary format says how many bits a significand has and which powers of two may scale it.
`Format.nearest` rounds an exact quotient to a magnitude of the format, a tie going to the even
significand. `Format.encode` and `Format.decode` lay a magnitude out as an exponent field above a
fraction field.
-/

namespace Toolpath.Binary

/-- An exact quotient of natural numbers. -/
structure Ratio where
  num : Nat
  den : Nat
deriving DecidableEq, Repr

namespace Ratio

def below (a b : Ratio) : Bool := a.num * b.den < b.num * a.den

def same (a b : Ratio) : Bool := a.num * b.den == b.num * a.den

def shift (r : Ratio) (e : Int) : Ratio := ⟨r.num <<< (-e).toNat, r.den <<< e.toNat⟩

/-- The nearest natural number; a half goes to the even neighbour. -/
def round (r : Ratio) : Nat :=
  let floor := r.num / r.den
  let twice := 2 * (r.num % r.den)
  if twice < r.den then floor
  else if r.den < twice then floor + 1
  else if floor % 2 = 0 then floor
  else floor + 1

end Ratio

/-- The value `significand * 2 ^ exponent`. -/
structure Magnitude where
  significand : Nat
  exponent : Int
deriving DecidableEq, Repr

def Magnitude.ratio (m : Magnitude) : Ratio :=
  ⟨m.significand <<< m.exponent.toNat, 1 <<< (-m.exponent).toNat⟩

/-- A binary format: the bits of a full significand, and the least and the greatest exponent. -/
structure Format where
  precision : Nat
  lowest : Int
  highest : Int
deriving DecidableEq, Repr

def single : Format := ⟨24, -149, 104⟩

def double : Format := ⟨53, -1074, 971⟩

namespace Format

/-- The exponent at which a quotient has a significand of full width, and never below the least
exponent of the format. -/
def unit (f : Format) (r : Ratio) : Int :=
  let guess : Int := (r.num.log2 : Int) - r.den.log2 - f.precision
  let wide := r.shift guess
  max (if wide.den <<< f.precision ≤ wide.num then guess + 1 else guess) f.lowest

/-- The magnitude nearest to a quotient, a tie going to the even significand. `none` stands for a
quotient that rounds beyond the greatest magnitude of the format. -/
def nearest (f : Format) (r : Ratio) : Option Magnitude :=
  if r.num = 0 then some ⟨0, f.lowest⟩
  else
    let e := f.unit r
    let s := (r.shift e).round
    let m : Magnitude := if s = 1 <<< f.precision then ⟨1 <<< (f.precision - 1), e + 1⟩ else ⟨s, e⟩
    if f.highest < m.exponent then none else some m

/-- The bits of a magnitude: the exponent field above the fraction field, without the sign. -/
def encode (f : Format) (m : Magnitude) : Nat :=
  let half := 1 <<< (f.precision - 1)
  if m.significand < half then m.significand
  else (m.exponent - f.lowest + 1).toNat * half + (m.significand - half)

/-- The magnitude of bits without a sign. The greatest exponent field, which stands for an infinity
or for no number, is not set apart here. -/
def decode (f : Format) (bits : Nat) : Magnitude :=
  let half := 1 <<< (f.precision - 1)
  let field := bits / half
  if field = 0 then ⟨bits % half, f.lowest⟩
  else ⟨half + bits % half, f.lowest + field - 1⟩

/-- The lower neighbour of the magnitude is half as far away as the upper one. -/
def narrowBelow (f : Format) (m : Magnitude) : Bool :=
  m.significand == 1 <<< (f.precision - 1) && f.lowest < m.exponent

/-- A quotient lies among those that round to the magnitude: strictly between the halfway points
to its neighbours, or on one of them when the significand is even. -/
def readsBack (f : Format) (m : Magnitude) (r : Ratio) : Bool :=
  let gap := if f.narrowBelow m then 1 else 2
  let low := Magnitude.ratio ⟨4 * m.significand - gap, m.exponent - 2⟩
  let high := Magnitude.ratio ⟨4 * m.significand + 2, m.exponent - 2⟩
  let inclusive := m.significand % 2 == 0
  (low.below r || (inclusive && low.same r)) && (r.below high || (inclusive && r.same high))

end Format

end Toolpath.Binary

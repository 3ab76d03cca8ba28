import Toolpath.Decimal.Style

/-!
# Positions and displacements

A position is a point in document units on three axes. Two positions coincide when no axis tells
them apart by more than `Position.tolerance`. Displacements carry the lengths and the angles between
the edges of a polyline.
-/

namespace Toolpath

/-- A point in space, in document units. -/
structure Position where
  x : Float32
  y : Float32
  z : Float32
deriving DecidableEq, Inhabited

structure Displacement where
  x : Float32
  y : Float32
  z : Float32
deriving DecidableEq

namespace Displacement

def zero : Displacement := ⟨0, 0, 0⟩

/-- The sum of the products along each axis, from the first axis on. -/
def dot (u v : Displacement) : Float32 := u.x * v.x + u.y * v.y + u.z * v.z

def length (u : Displacement) : Float32 := (u.dot u).sqrt

def scale (u : Displacement) (k : Float32) : Displacement := ⟨u.x * k, u.y * k, u.z * k⟩

/-- The displacement of length one in the same direction, or zero where the length has no finite
positive reciprocal. -/
def direction (u : Displacement) : Displacement :=
  let reciprocal := 1 / u.length
  if reciprocal.isFinite && 0 < reciprocal then u.scale reciprocal else zero

def isZero (u : Displacement) : Bool := u.x == 0 && u.y == 0 && u.z == 0

end Displacement

namespace Position

def origin : Position := ⟨0, 0, 0⟩

/-- Coordinates closer than this count as the same. -/
def tolerance : Float32 := 1e-4

def minus (a b : Position) : Displacement := ⟨a.x - b.x, a.y - b.y, a.z - b.z⟩

def distance (a b : Position) : Float32 := (a.minus b).length

def near (epsilon : Float32) (a b : Position) : Bool :=
  (a.x - b.x).abs ≤ epsilon && (a.y - b.y).abs ≤ epsilon && (a.z - b.z).abs ≤ epsilon

def coincides (a b : Position) : Bool := near tolerance a b

def isFinite (p : Position) : Bool := p.x.isFinite && p.y.isFinite && p.z.isFinite

/-- The coordinates are equal as numbers: zeros of either sign agree, and what is not a number
equals nothing. -/
def equal (a b : Position) : Bool := a.x == b.x && a.y == b.y && a.z == b.z

def description (p : Position) : String :=
  "X:" ++ Decimal.fixed 3 p.x ++ " Y:" ++ Decimal.fixed 3 p.y ++ " Z:" ++ Decimal.fixed 3 p.z

end Position

/-- The edges into and out of `here` turn by more than a smooth line does: their directions have a
product below `limit`. An edge without a direction does not turn. -/
def turnsBelow (limit : Float32) (before here after : Position) : Bool :=
  let incoming := (here.minus before).direction
  let outgoing := (after.minus here).direction
  !incoming.isZero && !outgoing.isZero && incoming.dot outgoing < limit

end Toolpath

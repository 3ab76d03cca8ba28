import Toolpath.Geometry.Bounds

/-!
# Small features

A tab or a slot is a small shape with an outline that is long for its area and with sharp turns.
`isSmallFeature` recognises it from a polyline as seen along the third axis.
-/

namespace Toolpath.Detail

/-- A vector in the plane of the first two axes. -/
structure Flat where
  x : Float32
  y : Float32
deriving DecidableEq

namespace Flat

def ofPosition (p : Position) : Flat := ⟨p.x, p.y⟩

def minus (u v : Flat) : Flat := ⟨u.x - v.x, u.y - v.y⟩

def dot (u v : Flat) : Float32 := u.x * v.x + u.y * v.y

/-- Twice the area of the triangle from the origin over both vectors, with a sign. -/
def cross (u v : Flat) : Float32 := u.x * v.y - u.y * v.x

def length (u : Flat) : Float32 := (u.dot u).sqrt

/-- The vector of length one in the same direction, or zero where the length has no finite positive
reciprocal. -/
def direction (u : Flat) : Flat :=
  let reciprocal := 1 / u.length
  if reciprocal.isFinite && 0 < reciprocal then ⟨u.x * reciprocal, u.y * reciprocal⟩ else ⟨0, 0⟩

def isZero (u : Flat) : Bool := u.x == 0 && u.y == 0

end Flat

/-- The outline of a closed polygon as pairs of neighbours: each point with the next, and the last
with the first. -/
def closedEdges (us : List Flat) : List (Flat × Flat) :=
  match us with
  | [] => []
  | first :: later => us.zip (later ++ [first])

def polygonArea (us : List Flat) : Float32 :=
  (Single.sum ((closedEdges us).map fun (u, v) => u.cross v)).abs / 2

def polygonPerimeter (us : List Flat) : Float32 :=
  Single.sum ((closedEdges us).map fun (u, v) => (u.minus v).length)

/-- Directions whose product is below this turn by more than half a right angle. -/
def featureTurn : Float32 := 0.70710678118654752440

def turnsSharply (before here after : Flat) : Bool :=
  let incoming := (here.minus before).direction
  let outgoing := (after.minus here).direction
  !incoming.isZero && !outgoing.isZero && incoming.dot outgoing < featureTurn

def sharpTurns : List Flat → Nat
  | before :: here :: after :: later =>
    (if turnsSharply before here after then 1 else 0) + sharpTurns (here :: after :: later)
  | _ => 0

/-- The outline is longer than a simple loop of the same area has, or there is no area. -/
def isComplex (us : List Flat) : Bool :=
  let area := polygonArea us
  if area ≤ Single.epsilon then true
  else
    let perimeter := polygonPerimeter us
    1.1 < perimeter * perimeter / (4 * Single.pi * area)

/-- The polyline is a small, detailed shape that is worth its points. -/
def isSmallFeature (points : List Position) (size : Float32) : Bool :=
  let bounds := Bounds.ofList points
  if points.length < 3 || size ≤ bounds.area
      || size ≤ Single.lesser bounds.width bounds.height then false
  else
    let us := points.map Flat.ofPosition
    isComplex us && 2 ≤ sharpTurns us

end Toolpath.Detail

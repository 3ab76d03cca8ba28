import Toolpath.Binary.Angle
import Toolpath.Geometry.Plane

/-!
# Arcs

An arc runs from one position to another around a centre in a plane. The centre is given by its
offset from the start, or else found from a radius. `Arc.circle?` resolves the circle and
`Arc.sweep?` the signed angle that the arc turns through; an arc without either is a straight line.
-/

namespace Toolpath

inductive Turn where
  | clockwise
  | counterClockwise
deriving DecidableEq, Repr

def Turn.sign : Turn → Float32
  | .clockwise => -1
  | .counterClockwise => 1

structure Arc where
  start : Position
  finish : Position
  plane : Plane
  turn : Turn
  /-- The centre counted from the start, along the two axes of the plane. -/
  offset : Option (Float32 × Float32) := none
  /-- The radius as a word of the program; a negative one asks for the longer way round. -/
  radius : Option Float32 := none
deriving DecidableEq

structure Circle where
  a : Float32
  b : Float32
  radius : Float32
deriving DecidableEq

namespace Arc

/-- A circle or a chord smaller than this is a point. -/
def leastRadius : Float32 := 1e-6

def leastAngle : Float32 := 1e-6

/-- Start and finish share a point in the plane. Along the normal they may differ, as they do on one
turn of a helix. -/
def closesInPlane (arc : Arc) : Bool :=
  let s := arc.plane.project arc.start
  let f := arc.plane.project arc.finish
  (s.a - f.a).abs ≤ Position.tolerance && (s.b - f.b).abs ≤ Position.tolerance

def offsetCircle (arc : Arc) (offset : Float32 × Float32) : Circle :=
  let s := arc.plane.project arc.start
  let a := s.a + offset.1
  let b := s.b + offset.2
  ⟨a, b, match arc.radius with
    | some r => r.abs
    | none => Single.hypot (s.a - a) (s.b - b)⟩

/-- The circle of a radius through both ends. Its centre stands on the perpendicular bisector of the
chord: to the left for the shorter counter-clockwise arc, to the right for the clockwise one, and
the other way for a negative radius. A radius below half the chord is raised to it. -/
def radiusCircle? (arc : Arc) (r : Float32) : Option Circle :=
  let s := arc.plane.project arc.start
  let f := arc.plane.project arc.finish
  let size := r.abs
  let da := f.a - s.a
  let db := f.b - s.b
  let chord := Single.hypot da db
  if chord < leastRadius || size < leastRadius then none
  else
    let half := chord / 2
    let height := (Single.greater (size * size - half * half) 0).sqrt
    let side := arc.turn.sign * Single.signum r
    some ⟨(s.a + f.a) / 2 + side * height * (-db / chord),
      (s.b + f.b) / 2 + side * height * (da / chord), Single.greater size half⟩

def circle? (arc : Arc) : Option Circle :=
  match arc.offset, arc.radius with
  | some offset, _ => some (arc.offsetCircle offset)
  | none, some r => arc.radiusCircle? r
  | none, none => none

def Circle.isProper (c : Circle) : Bool := c.radius.isFinite && !(c.radius < leastRadius)

def properCircle? (arc : Arc) : Option Circle := arc.circle?.filter Circle.isProper

def angleAt (arc : Arc) (c : Circle) (p : Position) : Float32 :=
  let q := arc.plane.project p
  Angle.ofVector (q.a - c.a) (q.b - c.b)

/-- Full turns are added to the end angle until it is not below the start angle. The first argument
bounds their count. -/
def raise (start : Float32) : Nat → Float32 → Float32
  | 0, finish => finish
  | turns + 1, finish => if finish < start then raise start turns (finish + Single.tau) else finish

/-- Full turns are taken from the end angle until it is not above the start angle. The first
argument bounds their count. -/
def lower (start : Float32) : Nat → Float32 → Float32
  | 0, finish => finish
  | turns + 1, finish => if start < finish then lower start turns (finish - Single.tau) else finish

/-- The turns that unwinding may add or take. Both angles lie within half a turn of zero, so that
one suffices. -/
def maxTurns : Nat := 2

/-- The end angle on the side of the start angle that the turn leads to. -/
def unwind (turn : Turn) (start finish : Float32) : Float32 :=
  match turn with
  | .counterClockwise => raise start maxTurns finish
  | .clockwise => lower start maxTurns finish

/-- The signed angle from the start angle to the end angle. Equal angles are a full turn on an arc
that closes, and none otherwise; a closed arc is a full turn even where rounding has moved its end
just past its start. -/
def sweepOf (turn : Turn) (closed : Bool) (start finish : Float32) : Option Float32 :=
  let sweep := unwind turn start finish - start
  if sweep.abs < leastAngle then
    if closed then some (turn.sign * Single.tau) else none
  else if closed && 1e-3 < (sweep.abs - Single.tau).abs then some (turn.sign * Single.tau)
  else some sweep

def sweepAround (arc : Arc) (c : Circle) : Option Float32 :=
  sweepOf arc.turn arc.closesInPlane (arc.angleAt c arc.start) (arc.angleAt c arc.finish)

def sweep? (arc : Arc) : Option Float32 := arc.properCircle?.bind arc.sweepAround

def radialError (arc : Arc) (c : Circle) (p : Position) : Float32 :=
  let q := arc.plane.project p
  (Single.hypot (q.a - c.a) (q.b - c.b) - c.radius).abs

def maxRadialError? (arc : Arc) (ps : List Position) : Option Float32 := do
  let c ← arc.circle?
  match ps.map (arc.radialError c) with
  | [] => none
  | e :: es => some (es.foldl Single.greater e)

end Arc

end Toolpath

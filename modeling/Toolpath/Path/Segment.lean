import Toolpath.Geometry.Bounds

/-!
# Segments of a toolpath

A waypoint is a position that the tool reaches, cutting or travelling. A segment is a polyline of
points that are all reached the same way.
-/

namespace Toolpath

/-- A position that the tool reaches. -/
structure Waypoint where
  position : Position
  /-- The tool travels there without cutting. -/
  travel : Bool
deriving DecidableEq

/-- A polyline of one kind. -/
structure Segment where
  points : List Position
  travel : Bool
deriving DecidableEq

namespace Segment

def length (s : Segment) : Nat := s.points.length

def bounds (s : Segment) : Bounds := Bounds.ofList s.points

def steps (s : Segment) : List Float32 := s.points.zipWith Position.distance s.points.tail

def extent (s : Segment) : Float32 := Single.sum s.steps

def totalLength : List Segment → Nat
  | [] => 0
  | s :: later => s.length + totalLength later

end Segment

inductive Filter where
  | all
  | travel
  | cutting
deriving DecidableEq, Repr

def Filter.admitsSegment : Filter → Segment → Bool
  | .all, _ => true
  | .travel, s => s.travel
  | .cutting, s => !s.travel

end Toolpath

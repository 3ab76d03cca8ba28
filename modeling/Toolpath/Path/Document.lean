import Toolpath.Path.Segment

/-!
# Toolpath documents

A document holds a toolpath twice: as flat streams of points and as segments, the longest runs of one
kind. Where the kind changes, the last point before the change opens the new segment, so that each
segment can be drawn alone. `Builder.push` lets both forms grow point by point.
-/

namespace Toolpath

structure Document where
  points : List Position := []
  travelFlags : List Bool := []
  zValues : List Float32 := []
  segments : List Segment := []
  /-- The lines of the program that said something. -/
  lines : Nat := 0
  arcs : Nat := 0
deriving DecidableEq

structure Stats where
  lines : Nat
  arcs : Nat
  totalPoints : Nat
  travelPoints : Nat
  cuttingPoints : Nat
  travelSegments : Nat
  cuttingSegments : Nat
  bounds : Option Bounds
  cuttingBounds : Option Bounds
deriving DecidableEq

namespace Document

def waypoints (d : Document) : List Waypoint := d.points.zipWith Waypoint.mk d.travelFlags

/-- The count of points of all segments, shared ones counted in each. -/
def segmentPointCount (d : Document) : Nat := Segment.totalLength d.segments

def filtered (d : Document) (f : Filter) : List Segment := d.segments.filter f.admitsSegment

def bounds? (d : Document) : Option Bounds := Bounds.ofList? d.points

def cuttingPoints (d : Document) : List Position :=
  (d.waypoints.filter fun w => !w.travel).map Waypoint.position

def cuttingBounds? (d : Document) : Option Bounds := Bounds.ofList? d.cuttingPoints

def stats (d : Document) : Stats :=
  let travelPoints := d.travelFlags.count true
  let travelSegments := d.segments.countP Segment.travel
  { lines := d.lines
    arcs := d.arcs
    totalPoints := d.points.length
    travelPoints := travelPoints
    cuttingPoints := d.points.length - travelPoints
    travelSegments := travelSegments
    cuttingSegments := d.segments.length - travelSegments
    bounds := d.bounds?
    cuttingBounds := d.cuttingBounds? }

end Document

/-- The segment at the end of a toolpath that is being built. -/
structure OpenSegment where
  points : Array Position
  travel : Bool

namespace OpenSegment

def close (s : OpenSegment) : Segment := ⟨s.points.toList, s.travel⟩

def extend (s : OpenSegment) (p : Position) : OpenSegment := { s with points := s.points.push p }

/-- The segment after this one, which starts from the last point of it. -/
def next (s : OpenSegment) (w : Waypoint) : OpenSegment :=
  ⟨s.points.back?.toArray.push w.position, w.travel⟩

end OpenSegment

/-- A toolpath that is being built. The flat streams and the segments grow side by side. -/
structure Builder where
  points : Array Position := #[]
  travelFlags : Array Bool := #[]
  zValues : Array Float32 := #[]
  closed : Array Segment := #[]
  /-- The segment after them, to which the next waypoint may belong. -/
  current : Option OpenSegment := none
  lines : Nat := 0
  arcs : Nat := 0

namespace Builder

def isEmpty (b : Builder) : Bool := b.points.isEmpty

def waypoints (b : Builder) : Array Waypoint := b.points.zipWith Waypoint.mk b.travelFlags

/-- Adds a waypoint at the end. One of another kind closes the current segment. -/
def push (b : Builder) (w : Waypoint) : Builder :=
  let current := b.current
  let b :=
    { b with
      points := b.points.push w.position
      travelFlags := b.travelFlags.push w.travel
      zValues := b.zValues.push w.position.z
      current := none }
  match current with
  | none => { b with current := some ⟨#[w.position], w.travel⟩ }
  | some s =>
    if s.travel = w.travel then { b with current := some (s.extend w.position) }
    else { b with closed := b.closed.push s.close, current := some (s.next w) }

def append (b : Builder) (ws : List Waypoint) : Builder := ws.foldl push b

def countLine (b : Builder) : Builder := { b with lines := b.lines + 1 }

def countArcs (b : Builder) (n : Nat) : Builder := { b with arcs := b.arcs + n }

def finish (b : Builder) : Document :=
  { points := b.points.toList
    travelFlags := b.travelFlags.toList
    zValues := b.zValues.toList
    segments := b.closed.toList ++ match b.current with
      | some s => if s.points.isEmpty then [] else [s.close]
      | none => []
    lines := b.lines
    arcs := b.arcs }

end Builder

end Toolpath

import Toolpath.Path.Document
import Toolpath.Proofs.Geometry.Rotation

/-!
# Toolpaths in rotation

A toolpath of rotated waypoints has the same runs of one kind, with rotated points.
-/

namespace Toolpath

def Waypoint.rotate (w : Waypoint) : Waypoint := { w with position := w.position.rotate }

def Segment.rotate (s : Segment) : Segment := { s with points := s.points.map Position.rotate }

def OpenSegment.rotate (s : OpenSegment) : OpenSegment := { s with points := s.points.map Position.rotate }

/-- All points are rotated. The heights are those of the rotated points. -/
def Document.rotate (d : Document) : Document :=
  { d with
    points := d.points.map Position.rotate
    zValues := d.points.map fun p => p.rotate.z
    segments := d.segments.map Segment.rotate }

def Builder.rotate (b : Builder) : Builder :=
  { b with
    points := b.points.map Position.rotate
    zValues := b.points.map fun p => p.rotate.z
    closed := b.closed.map Segment.rotate
    current := b.current.map OpenSegment.rotate }

namespace OpenSegment

theorem extend_rotate (s : OpenSegment) (p : Position) : s.rotate.extend p.rotate = (s.extend p).rotate := by
  simp [extend, rotate]

theorem next_rotate (s : OpenSegment) (w : Waypoint) : s.rotate.next w.rotate = (s.next w).rotate := by
  have last : s.rotate.points.back? = s.points.back?.map Position.rotate := Array.back?_map
  unfold next
  rw [last]
  cases s.points.back? with
  | none => simp [rotate, Waypoint.rotate]
  | some p => simp [rotate, Waypoint.rotate]

theorem close_rotate (s : OpenSegment) : s.rotate.close = s.close.rotate := by
  simp [close, rotate, Segment.rotate]

end OpenSegment

namespace Builder

theorem isEmpty_rotate (b : Builder) : b.rotate.isEmpty = b.isEmpty := by
  simp [isEmpty, rotate, Array.isEmpty]

theorem push_rotate (b : Builder) (w : Waypoint) : b.rotate.push w.rotate = (b.push w).rotate := by
  unfold push
  cases current : b.current with
  | none => simp [rotate, current, Waypoint.rotate, OpenSegment.rotate]
  | some s =>
    have turned : b.rotate.current = some s.rotate := by simp [rotate, current]
    rw [turned]
    dsimp only
    by_cases same : s.travel = w.travel
    · have alike : s.rotate.travel = w.rotate.travel := same
      rw [if_pos same, if_pos alike, show w.rotate.position = w.position.rotate from rfl, s.extend_rotate]
      simp [rotate, Waypoint.rotate]
    · have apart : ¬s.rotate.travel = w.rotate.travel := same
      rw [if_neg same, if_neg apart, s.close_rotate, s.next_rotate]
      simp [rotate, Waypoint.rotate]

theorem append_rotate (b : Builder) (ws : List Waypoint) :
    b.rotate.append (ws.map Waypoint.rotate) = (b.append ws).rotate := by
  unfold append
  induction ws generalizing b with
  | nil => rfl
  | cons w ws ih =>
    rw [List.map_cons, List.foldl_cons, List.foldl_cons, push_rotate]
    exact ih (b.push w)

theorem finish_rotate (b : Builder) : b.rotate.finish = b.finish.rotate := by
  unfold finish
  cases current : b.current with
  | none => simp [rotate, current, Document.rotate]
  | some s =>
    have turned : b.rotate.current = some s.rotate := by simp [rotate, current]
    have blank : s.rotate.points.isEmpty = s.points.isEmpty := by simp [OpenSegment.rotate, Array.isEmpty]
    rw [turned]
    dsimp only
    rw [blank, s.close_rotate]
    split
    · simp [rotate, Document.rotate]
    · simp [rotate, Document.rotate]

end Builder

end Toolpath

import Toolpath.Path.Document
import Toolpath.Proofs.Path.Runs

/-!
# Building a toolpath point by point

`Builder.push` lets the flat streams and the segments grow at their ends, and never looks back further
than the current segment. `Builder.Holds` says that both are those of one stream of waypoints;
`holds_append` says that they stay so.
-/

namespace Toolpath.Builder

/-- The waypoints of the current segment. -/
def pending (b : Builder) : List Waypoint :=
  match b.current with
  | some s => s.close.waypoints
  | none => []

/-- The toolpath is that of a stream of waypoints. The segments are right for whatever comes later,
because the closed ones do not change any more. -/
structure Holds (b : Builder) (ws : List Waypoint) : Prop where
  points : b.points.toList = ws.map Waypoint.position
  flags : b.travelFlags.toList = ws.map Waypoint.travel
  heights : b.zValues.toList = ws.map fun w => w.position.z
  inhabited : ∀ s, b.current = some s → s.points ≠ #[]
  segments : ∀ later, b.closed.toList ++ Segment.runs (b.pending ++ later) = Segment.runs (ws ++ later)

variable {b : Builder} {ws : List Waypoint}

theorem holds_empty : Holds {} [] := by
  refine ⟨rfl, rfl, rfl, ?_, fun _ => rfl⟩
  intro s current
  cases current

theorem isEmpty_of_holds (holds : b.Holds ws) : b.isEmpty = ws.isEmpty := by
  rw [isEmpty, ← Array.isEmpty_toList, holds.points, List.isEmpty_map]

theorem waypoints_extend (s : OpenSegment) (p : Position) :
    (s.extend p).close.waypoints = s.close.waypoints ++ [⟨p, s.travel⟩] := by
  simp [OpenSegment.extend, OpenSegment.close, Segment.waypoints]

theorem waypoints_next {s : OpenSegment} {p : Position} (last : s.close.points.getLast? = some p)
    (w : Waypoint) : (s.next w).close.waypoints = [⟨p, w.travel⟩, w] := by
  have back : s.points.back? = some p := by rwa [OpenSegment.close, Array.getLast?_toList] at last
  simp [OpenSegment.next, OpenSegment.close, Segment.waypoints, back]

theorem holds_push (holds : b.Holds ws) (w : Waypoint) : (b.push w).Holds (ws ++ [w]) := by
  obtain ⟨points, flags, heights, inhabited, segments⟩ := holds
  -- The cases are those of `push`: a first segment, one more point for the current one, and a new one.
  unfold push
  cases current : b.current with
  | none =>
    refine ⟨by simp [points], by simp [flags], by simp [heights], by simp, ?_⟩
    intro later
    rw [List.append_assoc, ← segments, pending, pending, current]
    rfl
  | some s =>
    have whole : s.points ≠ #[] := inhabited s current
    by_cases same : s.travel = w.travel
    · simp only [same, ↓reduceIte]
      refine ⟨by simp [points], by simp [flags], by simp [heights], by simp [OpenSegment.extend], ?_⟩
      intro later
      rw [List.append_assoc, ← segments, pending, pending, current]
      simp only [waypoints_extend, same, List.append_assoc]
    · simp only [same, ↓reduceIte]
      refine ⟨by simp [points], by simp [flags], by simp [heights], by simp [OpenSegment.next], ?_⟩
      intro later
      obtain ⟨p, last⟩ : ∃ p, s.close.points.getLast? = some p := by
        rw [← Option.isSome_iff_exists, OpenSegment.close, Array.getLast?_toList]
        simpa using whole
      rw [List.append_assoc, ← segments, pending, pending, current]
      simp only [waypoints_next last, List.cons_append, List.nil_append]
      rw [Segment.runs_break last same, Array.toList_push, List.append_assoc]
      rfl

theorem holds_append (holds : b.Holds ws) (vs : List Waypoint) : (b.append vs).Holds (ws ++ vs) := by
  induction vs generalizing b ws with
  | nil => rwa [List.append_nil]
  | cons v vs ih =>
    have pushed := ih (holds_push holds v)
    rwa [List.append_assoc] at pushed

theorem holds_countLine (holds : b.Holds ws) : b.countLine.Holds ws :=
  ⟨holds.points, holds.flags, holds.heights, holds.inhabited, holds.segments⟩

theorem holds_countArcs (holds : b.Holds ws) (n : Nat) : (b.countArcs n).Holds ws :=
  ⟨holds.points, holds.flags, holds.heights, holds.inhabited, holds.segments⟩

theorem counts_push (b : Builder) (w : Waypoint) :
    (b.push w).lines = b.lines ∧ (b.push w).arcs = b.arcs := by
  unfold push
  cases b.current with
  | none => exact ⟨rfl, rfl⟩
  | some s => dsimp only; split <;> exact ⟨rfl, rfl⟩

theorem counts_append (b : Builder) (ws : List Waypoint) :
    (b.append ws).lines = b.lines ∧ (b.append ws).arcs = b.arcs := by
  induction ws generalizing b with
  | nil => exact ⟨rfl, rfl⟩
  | cons w ws ih =>
    obtain ⟨lines, arcs⟩ := counts_push b w
    obtain ⟨later, laterArcs⟩ := ih (b.push w)
    exact ⟨later.trans lines, laterArcs.trans arcs⟩

/-- What a document has of a toolpath, whatever way it was built in. -/
theorem finish_of_holds (holds : b.Holds ws) :
    b.finish.points = ws.map Waypoint.position ∧ b.finish.travelFlags = ws.map Waypoint.travel ∧
      b.finish.zValues = (ws.map fun w => w.position.z) ∧ b.finish.segments = Segment.runs ws := by
  refine ⟨holds.points, holds.flags, holds.heights, ?_⟩
  have complete := holds.segments []
  rw [List.append_nil, List.append_nil] at complete
  rw [← complete, finish, pending]
  cases current : b.current with
  | none => rfl
  | some s =>
    have whole : s.points ≠ #[] := holds.inhabited s current
    have inhabited : s.close.points ≠ [] := by simpa [OpenSegment.close] using whole
    simp only [Segment.runs_waypoints inhabited]
    simp [whole]

end Toolpath.Builder

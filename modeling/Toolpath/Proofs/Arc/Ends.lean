import Toolpath.Arc.Polyline

/-!
# The ends of an arc

`points_eq` splits the polyline of an arc into its start, the points between and its finish. The
settings decide about the points between and about nothing else.
-/

namespace Toolpath.Arc

/-- The points of the polyline strictly between its ends. A straight line has none. -/
def between (settings : ArcSettings) (arc : Arc) : List Position :=
  match arc.properCircle? with
  | none => []
  | some c =>
    match arc.sweepAround c with
    | none => []
    | some sweep => arc.interior settings c sweep

theorem points_eq (settings : ArcSettings) (arc : Arc) :
    arc.points settings = arc.start :: (arc.between settings ++ [arc.finish]) := by
  cases circle : arc.properCircle? with
  | none => simp [points, between, circle]
  | some c => cases sweep : arc.sweepAround c <;> simp [points, between, circle, sweep]

theorem points_tail (settings : ArcSettings) (arc : Arc) :
    (arc.points settings).tail = arc.between settings ++ [arc.finish] := by
  rw [points_eq, List.tail_cons]

theorem length_points (settings : ArcSettings) (arc : Arc) :
    (arc.points settings).length = (arc.between settings).length + 2 := by
  rw [points_eq, List.length_cons, List.length_append, List.length_singleton]

end Toolpath.Arc

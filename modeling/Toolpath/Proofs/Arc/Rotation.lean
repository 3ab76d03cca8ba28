import Toolpath.Arc.Polyline
import Toolpath.Proofs.Geometry.Rotation

/-!
# Arcs in rotation

An arc is resolved in its plane, so the arc of rotated ends in the next plane has the same circle and the same
sweep, and its points are the rotated points. Points are left out by their distance in space, which is why
the arc has to stay at one height.
-/

namespace Toolpath.Arc

def rotate (arc : Arc) : Arc :=
  { arc with start := arc.start.rotate, finish := arc.finish.rotate, plane := arc.plane.rotate }

variable (arc : Arc)

theorem project_start_rotate : arc.rotate.plane.project arc.rotate.start = arc.plane.project arc.start :=
  Plane.project_rotate arc.plane arc.start

theorem project_finish_rotate : arc.rotate.plane.project arc.rotate.finish = arc.plane.project arc.finish :=
  Plane.project_rotate arc.plane arc.finish

theorem closesInPlane_rotate : arc.rotate.closesInPlane = arc.closesInPlane := by
  unfold closesInPlane
  rw [project_start_rotate, project_finish_rotate]

theorem circle?_rotate : arc.rotate.circle? = arc.circle? := by
  have offsets : arc.rotate.offsetCircle = arc.offsetCircle := by
    funext offset
    unfold offsetCircle
    rw [project_start_rotate]
    rfl
  have radii : arc.rotate.radiusCircle? = arc.radiusCircle? := by
    funext r
    unfold radiusCircle?
    rw [project_start_rotate, project_finish_rotate]
    rfl
  unfold circle?
  rw [offsets, radii]
  rfl

theorem properCircle?_rotate : arc.rotate.properCircle? = arc.properCircle? := by
  unfold properCircle?
  rw [circle?_rotate]

theorem angleAt_rotate (c : Circle) (p : Position) : arc.rotate.angleAt c p.rotate = arc.angleAt c p := by
  unfold angleAt
  rw [show arc.rotate.plane.project p.rotate = arc.plane.project p from Plane.project_rotate arc.plane p]

theorem sweepAround_rotate (c : Circle) : arc.rotate.sweepAround c = arc.sweepAround c := by
  unfold sweepAround
  rw [closesInPlane_rotate]
  show sweepOf arc.turn arc.closesInPlane (arc.rotate.angleAt c arc.start.rotate)
    (arc.rotate.angleAt c arc.finish.rotate) = _
  rw [angleAt_rotate, angleAt_rotate]

variable (s : ArcSettings)

theorem sample_rotate (c : Circle) (startAngle sweep : Float32) (n i : Nat) :
    arc.rotate.sample s c startAngle sweep n i = (arc.sample s c startAngle sweep n i).rotate := by
  unfold sample
  rw [project_start_rotate, project_finish_rotate]
  exact Plane.compose_rotate arc.plane _

theorem samples_rotate (c : Circle) (sweep : Float32) :
    arc.rotate.samples s c sweep = (arc.samples s c sweep).map Position.rotate := by
  have start : arc.rotate.angleAt c arc.rotate.start = arc.angleAt c arc.start := angleAt_rotate arc c arc.start
  unfold samples
  dsimp only
  rw [start, List.map_map]
  apply List.map_congr_left
  intro i _
  exact sample_rotate arc s c _ sweep _ i

/-! ### Spacing -/

variable {arc s}

theorem normal_of_mem_samples (flat : s.helical = false) {c : Circle} {sweep : Float32} {p : Position}
    (member : p ∈ arc.samples s c sweep) : (arc.plane.project p).normal = (arc.plane.project arc.start).normal := by
  obtain ⟨i, -, rfl⟩ := List.mem_map.mp member
  simp only [sample, flat, Bool.false_eq_true, ↓reduceIte, Plane.project_compose]

theorem spaced_rotate {plane : Plane} {height : Float32} (gap : Float32) {last : Position} {ps : List Position}
    (level : ∀ p ∈ last :: ps, (plane.project p).normal = height) :
    spaced gap last.rotate (ps.map Position.rotate) = (spaced gap last ps).map Position.rotate := by
  induction ps generalizing last with
  | nil => rfl
  | cons p ps ih =>
    obtain ⟨below, rest⟩ := List.forall_mem_cons.mp level
    obtain ⟨here, later⟩ := List.forall_mem_cons.mp rest
    have distance : last.rotate.distance p.rotate = last.distance p :=
      Position.distance_rotate (below.trans here.symm)
    simp only [List.map_cons, spaced, distance]
    split
    · exact ih (List.forall_mem_cons.mpr ⟨below, later⟩)
    · rw [List.map_cons, ih rest]

theorem interior_rotate (flat : s.helical = false) (c : Circle) (sweep : Float32) :
    arc.rotate.interior s c sweep = (arc.interior s c sweep).map Position.rotate := by
  have level : ∀ p ∈ arc.start :: arc.samples s c sweep,
      (arc.plane.project p).normal = (arc.plane.project arc.start).normal :=
    List.forall_mem_cons.mpr ⟨rfl, fun _ member => normal_of_mem_samples flat member⟩
  unfold interior
  rw [samples_rotate]
  split
  · exact spaced_rotate s.minSpacing level
  · rfl

theorem points_rotate (flat : s.helical = false) (arc : Arc) :
    arc.rotate.points s = (arc.points s).map Position.rotate := by
  unfold points
  rw [properCircle?_rotate]
  cases arc.properCircle? with
  | none => rfl
  | some c =>
    dsimp only
    rw [sweepAround_rotate]
    cases arc.sweepAround c with
    | none => rfl
    | some sweep =>
      dsimp only
      rw [interior_rotate flat, List.map_append, List.map_cons, List.map_singleton]
      rfl

end Toolpath.Arc

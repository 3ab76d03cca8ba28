import Toolpath.Proofs.Arc.Ends

/-!
# Closed arcs

An arc that comes back to its start turns through a full circle as soon as it has a proper circle to turn
about. Without one it is the straight line between its ends.
-/

namespace Toolpath.Arc

/-- Once round in the direction of the turn, or nearly once round where the ends are not quite the same. -/
def IsFullTurn (turn : Turn) (sweep : Float32) : Prop :=
  sweep = turn.sign * Single.tau ∨ ¬ 1e-3 < (sweep.abs - Single.tau).abs

variable {arc : Arc} {c : Circle}

theorem closesInPlane_of_coincides (near : arc.start.coincides arc.finish = true) : arc.closesInPlane = true := by
  simp only [Position.coincides, Position.near, Bool.and_eq_true, decide_eq_true_eq] at near
  obtain ⟨⟨x, y⟩, z⟩ := near
  cases plane : arc.plane <;> simp [closesInPlane, plane, Plane.project, x, y, z]

theorem sweepOf_closed (turn : Turn) (start finish : Float32) :
    ∃ sweep, sweepOf turn true start finish = some sweep ∧ IsFullTurn turn sweep := by
  simp only [sweepOf, Bool.true_and, decide_eq_true_eq, ↓reduceIte]
  split
  · exact ⟨_, rfl, Or.inl rfl⟩
  · split
    · exact ⟨_, rfl, Or.inl rfl⟩
    · next near => exact ⟨_, rfl, Or.inr near⟩

theorem sweepAround_of_closed (closed : arc.closesInPlane = true) (c : Circle) :
    ∃ sweep, arc.sweepAround c = some sweep ∧ IsFullTurn arc.turn sweep := by
  unfold sweepAround
  rw [closed]
  exact sweepOf_closed ..

theorem between_of_sweep {sweep : Float32} (settings : ArcSettings) (proper : arc.properCircle? = some c)
    (turns : arc.sweepAround c = some sweep) : arc.between settings = arc.interior settings c sweep := by
  simp only [between, proper, turns]

theorem between_of_improper (settings : ArcSettings) (improper : arc.properCircle? = none) :
    arc.between settings = [] := by
  simp only [between, improper]

theorem properCircle?_of_offset {offset : Float32 × Float32} (named : arc.offset = some offset) :
    arc.properCircle? = (some (arc.offsetCircle offset)).filter Circle.isProper := by
  simp only [properCircle?, circle?, named]

end Toolpath.Arc

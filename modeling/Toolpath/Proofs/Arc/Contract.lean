import Toolpath.Proofs.Arc.Closed
import Toolpath.Proofs.Arc.Rotation
import Toolpath.Proofs.Arc.Sweep

/-!
# What the polyline of an arc is made of

The polyline runs from the start of the arc to its finish, and between them over points of its circle: at equal
steps of the sweep and in their order, of which some may be left out on a circle that is not small. This
holds of every arc, whatever its numbers are.
-/

namespace Toolpath.Arc

open Single

variable {s : ArcSettings} {arc : Arc} {c : Circle} {sweep : Float32} {p : Position}

/-! ### Sampled points -/

/-- The point of the circle at an angle, at a height above the plane. -/
def pointAt (arc : Arc) (c : Circle) (angle height : Float32) : Position :=
  arc.plane.compose ⟨c.a + c.radius * Angle.cos angle, c.b + c.radius * Angle.sin angle, height⟩

/-- The height of a point on its way through the arc: that of the start, or one between start and finish on a
helix. -/
def heightAt (s : ArcSettings) (arc : Arc) (t : Float32) : Float32 :=
  let start := (arc.plane.project arc.start).normal
  let finish := (arc.plane.project arc.finish).normal
  if s.helical then start + (finish - start) * t else start

/-- The part of the sweep that lies behind a point. -/
def part (n i : ℕ) : Float32 := Float32.ofNat i / Float32.ofNat n

theorem samples_eq (s : ArcSettings) (arc : Arc) (c : Circle) (sweep : Float32) :
    arc.samples s c sweep = (List.range' 1 (segmentCount s c.radius sweep - 1)).map fun i =>
      arc.pointAt c (arc.angleAt c arc.start + part (segmentCount s c.radius sweep) i * sweep)
        (arc.heightAt s (part (segmentCount s c.radius sweep) i)) := rfl

/-! ### Points left out -/

theorem spaced_sublist (gap : Float32) (last : Position) (ps : List Position) : (spaced gap last ps).Sublist ps := by
  induction ps generalizing last with
  | nil => exact .slnil
  | cons p ps ih =>
    unfold spaced
    split
    · exact (ih last).cons p
    · exact (ih p).cons_cons p

theorem interior_sublist (s : ArcSettings) (arc : Arc) (c : Circle) (sweep : Float32) :
    (arc.interior s c sweep).Sublist (arc.samples s c sweep) := by
  unfold interior
  split
  · exact spaced_sublist ..
  · exact .refl _

theorem interior_of_unspaced (dense : c.radius < spacingRadius ∨ s.minSpacing ≤ 0) :
    arc.interior s c sweep = arc.samples s c sweep := by
  unfold interior
  apply if_neg
  rw [Bool.and_eq_true, decide_eq_true_eq, decide_eq_true_eq]
  rintro ⟨large, wide⟩
  rcases dense with small | narrow
  · exact not_lt_of_le large small
  · exact not_lt_of_le narrow wide

/-! ### The polyline -/

theorem sweep?_eq_some_iff : arc.sweep? = some sweep ↔
    ∃ c, arc.properCircle? = some c ∧ arc.sweepAround c = some sweep := Option.bind_eq_some_iff

theorem between_of_straight (straight : arc.sweep? = none) : arc.between s = [] := by
  unfold sweep? at straight
  unfold between
  cases circle : arc.properCircle? with
  | none => rfl
  | some c =>
    rw [circle, Option.bind_some] at straight
    dsimp only
    rw [straight]

theorem normal_of_mem_between (flat : s.helical = false) (member : p ∈ arc.between s) :
    (arc.plane.project p).normal = (arc.plane.project arc.start).normal := by
  cases sweeps : arc.sweep? with
  | none =>
    rw [between_of_straight sweeps] at member
    cases member
  | some sweep =>
    obtain ⟨c, proper, turns⟩ := sweep?_eq_some_iff.mp sweeps
    rw [between_of_sweep s proper turns] at member
    exact normal_of_mem_samples flat ((interior_sublist s arc c sweep).subset member)

/-- The polyline of an arc begins at its start and ends at its finish. It is straight where the arc has no sweep. Where
it has one, the points between lie on the circle at equal parts of the sweep, in this order; all of them are there on
a small circle, or if no spacing is asked for. Without helices they are as high as the start. And the loop that finds
the sweep ends, if directions in the plane are measured as they should be. -/
theorem points_on_arc (s : ArcSettings) (arc : Arc) :
    (∃ inner, arc.points s = arc.start :: (inner ++ [arc.finish]) ∧
      (s.helical = false → ∀ p ∈ inner, (arc.plane.project p).normal = (arc.plane.project arc.start).normal) ∧
      (arc.sweep? = none → inner = []) ∧
      ∀ sweep, arc.sweep? = some sweep → ∃ c, arc.properCircle? = some c ∧
        let n := segmentCount s c.radius sweep
        let sampled := (List.range' 1 (n - 1)).map fun i =>
          arc.pointAt c (arc.angleAt c arc.start + part n i * sweep) (arc.heightAt s (part n i))
        inner.Sublist sampled ∧ (c.radius < 1 ∨ s.minSpacing ≤ 0 → inner = sampled)) ∧
    ∀ c, arc.properCircle? = some c → IsDirection (arc.angleAt c arc.start) → IsDirection (arc.angleAt c arc.finish) →
      ∃ turns, turns ≤ 1 ∧ Unwinds arc.turn (arc.angleAt c arc.start) turns (arc.angleAt c arc.finish)
        (unwind arc.turn (arc.angleAt c arc.start) (arc.angleAt c arc.finish)) := by
  refine ⟨⟨arc.between s, points_eq s arc, fun flat p member => normal_of_mem_between flat member, between_of_straight,
    fun sweep sweeps => ?_⟩, fun c _ start finish => unwinds_of_isDirection arc.turn start finish⟩
  obtain ⟨c, proper, turns⟩ := sweep?_eq_some_iff.mp sweeps
  refine ⟨c, proper, ?_⟩
  dsimp only
  rw [between_of_sweep s proper turns, ← samples_eq]
  exact ⟨interior_sublist s arc c sweep, interior_of_unspaced⟩

end Toolpath.Arc

import Mathlib
import Toolpath.Proofs.Arc.Contract
import Toolpath.Proofs.Settings.Check

/-!
# The limits on the chords of an arc

The settings limit how many chords an arc is cut into. Corners are the exception: a quarter turn on a small
circle has `cornerSegments` chords at least, also where the settings allow fewer.
-/

namespace Toolpath

namespace Arc

variable {s : ArcSettings} {arc : Arc}

/-- The count of chords within the limits of the settings. -/
def limitedCount (s : ArcSettings) (raw : Float32) : ℕ :=
  let most := max s.maxSegments.toNat 1
  let fewest := min (max s.minSegments.toNat 1) most
  if raw.isFinite then min (max (Single.toNatural32 .up raw) fewest) most else most

theorem segmentCount_eq (s : ArcSettings) (radius sweep : Float32) : segmentCount s radius sweep =
    if isCorner radius sweep then max (limitedCount s (rawSegments s radius sweep)) cornerSegments
    else limitedCount s (rawSegments s radius sweep) := rfl

theorem limitedCount_within (checked : s.check = .ok ()) (raw : Float32) :
    s.minSegments.toNat ≤ limitedCount s raw ∧ limitedCount s raw ≤ s.maxSegments.toNat := by
  obtain ⟨some, ordered⟩ := ArcSettings.limits_of_check checked
  unfold limitedCount
  dsimp only
  split <;> omega

/-- The settings are kept but for corners that they allow too few chords for. -/
theorem segmentCount_within (checked : s.check = .ok ()) (radius sweep : Float32) :
    s.minSegments.toNat ≤ segmentCount s radius sweep ∧
      (s.maxSegments.toNat < segmentCount s radius sweep ↔
        isCorner radius sweep = true ∧ s.maxSegments.toNat < cornerSegments) ∧
      (s.maxSegments.toNat < segmentCount s radius sweep → segmentCount s radius sweep = cornerSegments) := by
  obtain ⟨fewest, most⟩ := limitedCount_within checked (rawSegments s radius sweep)
  rw [segmentCount_eq]
  split
  · next corner =>
    simp only [corner, true_and]
    omega
  · next plain =>
    simp only [plain, Bool.false_eq_true, false_and, iff_false]
    omega

theorem length_points_of_straight (straight : arc.sweep? = none) : (arc.points s).length = 2 := by
  rw [points_eq, between_of_straight straight]
  rfl

/-- As many chords have one point more. -/
theorem length_points_le {c : Circle} {sweep : Float32} (some : 0 < segmentCount s c.radius sweep)
    (proper : arc.properCircle? = .some c) (turns : arc.sweepAround c = .some sweep) :
    (arc.points s).length ≤ segmentCount s c.radius sweep + 1 := by
  have fewer := (interior_sublist s arc c sweep).length_le
  rw [samples_eq, List.length_map, List.length_range'] at fewer
  rw [points_eq, between_of_sweep s proper turns, List.length_cons, List.length_append, List.length_singleton]
  omega

/-- With checked settings, an arc has no fewer chords than they ask for, and no more than they allow but for one
exception: a corner that they allow fewer than `cornerSegments` chords for has just so many. Accordingly, the polyline
of an arc has one point more than chords are allowed, at most, unless it is such a corner. -/
theorem chords_within_limits {s : ArcSettings} (checked : s.check = .ok ()) :
    (∀ radius sweep, s.minSegments.toNat ≤ segmentCount s radius sweep ∧
      (s.maxSegments.toNat < segmentCount s radius sweep ↔
        isCorner radius sweep = true ∧ s.maxSegments.toNat < cornerSegments) ∧
      (s.maxSegments.toNat < segmentCount s radius sweep → segmentCount s radius sweep = cornerSegments)) ∧
    ∀ arc : Arc, 2 < (arc.points s).length → (arc.points s).length ≤ s.maxSegments.toNat + 1 ∨
      (arc.points s).length ≤ cornerSegments + 1 ∧ s.maxSegments.toNat < cornerSegments ∧
        ∃ c sweep, arc.properCircle? = some c ∧ arc.sweepAround c = some sweep ∧ isCorner c.radius sweep = true := by
  refine ⟨segmentCount_within checked, fun arc many => ?_⟩
  cases sweeps : arc.sweep? with
  | none =>
    rw [length_points_of_straight sweeps] at many
    omega
  | some sweep =>
    obtain ⟨c, proper, turns⟩ := sweep?_eq_some_iff.mp sweeps
    obtain ⟨fewest, exceeds, corner⟩ := segmentCount_within checked c.radius sweep
    have one := (ArcSettings.limits_of_check checked).1
    have length := length_points_le (one.trans fewest) proper turns
    by_cases within : segmentCount s c.radius sweep ≤ s.maxSegments.toNat
    · left
      omega
    · right
      obtain ⟨isCorner, few⟩ := exceeds.mp (by omega)
      have count := corner (by omega)
      exact ⟨by omega, few, c, sweep, proper, turns, isCorner⟩

/-- Half a turn with the standard settings. -/
theorem half_turn_within_limits : ({} : ArcSettings).check = .ok () ∧
    4 ≤ segmentCount {} 20 Single.pi ∧ ¬ 300 < segmentCount {} 20 Single.pi := by
  have checked : ({} : ArcSettings).check = .ok () := by decide +kernel
  obtain ⟨fewest, exceeds, -⟩ := (chords_within_limits checked).1 20 Single.pi
  refine ⟨checked, fewest, fun more => ?_⟩
  exact absurd (exceeds.mp more).1 (by decide +kernel)

/-- A quarter turn of radius one has 16 chords where 8 are allowed. -/
theorem corner_beyond_limit : ({ maxSegments := 8 } : ArcSettings).check = .ok () ∧
    segmentCount { maxSegments := 8 } 1 Single.quarterTurn = 16 := by
  constructor
  · rfl
  · decide +kernel

end Arc

end Toolpath

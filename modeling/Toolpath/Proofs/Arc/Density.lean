import Mathlib
import Toolpath.Proofs.Arc.Limits
import Toolpath.Proofs.Binary.Extended
import Toolpath.Proofs.Binary.Whole

/-!
# More detail, more chords

A greater detail multiplier makes the chord that an arc is cut into no longer. Two divisions round, the count may be
infinite, it is rounded up and cut off at the limits, and no step of these turns the order round.
-/

namespace Toolpath

open Single

namespace Arc

variable {s : ArcSettings} {m radius sweep : Float32}

/-! ### The length of a chord -/

/-- The chord that a circle is cut into at the detail of the settings. -/
def targetLength (s : ArcSettings) (radius : Float32) : Float32 :=
  chordLength radius / greater s.detailMultiplier epsilon

theorem rawSegments_eq (s : ArcSettings) (radius sweep : Float32) :
    rawSegments s radius sweep = radius * sweep.abs / targetLength s radius := rfl

theorem chordLength_spec (radius : Float32) : (chordLength radius).isFinite = true ∧
    1 / 2 ^ 5 ≤ value (chordLength radius) ∧ value (chordLength radius) ≤ 1 / 2 := by
  unfold chordLength
  repeat' split
  all_goals decide +kernel

/-- The divisor of a chord. It is the multiplier, but no less than a least one. -/
theorem divisor_spec (finite : m.isFinite = true) : (greater m epsilon).isFinite = true ∧
    value (greater m epsilon) = max (value m) (value epsilon) := by
  have least : epsilon.isFinite = true := by decide +kernel
  obtain ⟨number, greatest⟩ := greater_number (isNaN_of_isFinite finite) (isNaN_of_isFinite least)
  rw [extended_eq finite, extended_eq least] at greatest
  have result : (greater m epsilon).isFinite = true := by
    rw [isFinite_iff_extended number, greatest]
    exact (abs_max_le_max_abs_abs).trans_lt (max_lt (abs_value_lt m) (abs_value_lt epsilon))
  exact ⟨result, (extended_eq result).symm.trans greatest⟩

theorem value_epsilon : value epsilon = 1 / 2 ^ 23 := by decide +kernel

/-- A chord has a length, however great the multiplier is. -/
theorem targetLength_spec (finite : s.detailMultiplier.isFinite = true) (radius : Float32) :
    (targetLength s radius).isFinite = true ∧ 0 < value (targetLength s radius) ∧ value (targetLength s radius) =
      rounded (value (chordLength radius) / max (value s.detailMultiplier) (value epsilon)) := by
  obtain ⟨chordFinite, short, long⟩ := chordLength_spec radius
  obtain ⟨divisorFinite, divisor⟩ := divisor_spec finite
  have least : 1 / 2 ^ 23 ≤ value (greater s.detailMultiplier epsilon) := by
    rw [divisor, value_epsilon]
    exact le_max_right _ _
  have most : value (greater s.detailMultiplier epsilon) < 2 ^ 128 := (le_abs_self _).trans_lt (abs_value_lt _)
  have pos : 0 < value (greater s.detailMultiplier epsilon) := lt_of_lt_of_le (by norm_num) least
  have rounds := rounds_div chordFinite divisorFinite pos.ne'
  have low : (2 : ℚ) ^ (-133 : ℤ) ≤ value (chordLength radius) / value (greater s.detailMultiplier epsilon) := by
    rw [le_div_iff₀ pos]
    refine le_trans ?_ short
    calc (2 : ℚ) ^ (-133 : ℤ) * value (greater s.detailMultiplier epsilon)
        ≤ 2 ^ (-133 : ℤ) * 2 ^ 128 := mul_le_mul_of_nonneg_left most.le (by positivity)
      _ = 1 / 2 ^ 5 := by norm_num
  have high : value (chordLength radius) / value (greater s.detailMultiplier epsilon) ≤ 2 ^ 22 := by
    rw [div_le_iff₀ pos]
    linarith
  have result : (targetLength s radius).isFinite = true := by
    refine rounds.finite_iff.mpr ?_
    rw [InRange, abs_of_nonneg (le_trans (by positivity) low)]
    linarith
  refine ⟨result, ?_, (rounds.value result).trans (by rw [divisor])⟩
  rw [show value (targetLength s radius) = _ from rounds.value result]
  exact lt_of_lt_of_le (by positivity) (le_rounded (exact_two_zpow (by norm_num)) low)

/-- More detail, shorter chords. -/
theorem targetLength_anti (left : s.detailMultiplier.isFinite = true) (right : m.isFinite = true)
    (le : s.detailMultiplier ≤ m) (radius : Float32) :
    value (targetLength { s with detailMultiplier := m } radius) ≤ value (targetLength s radius) := by
  have short := (chordLength_spec radius).2.1
  have least : 0 < max (value s.detailMultiplier) (value epsilon) :=
    lt_max_of_lt_right (by rw [value_epsilon]; norm_num)
  rw [(targetLength_spec left radius).2.2, (targetLength_spec (s := { s with detailMultiplier := m }) right radius).2.2]
  refine rounded_mono (div_le_div_of_nonneg_left (le_trans (by norm_num) short) least ?_)
  exact max_le_max ((le_iff left right).mp le) le_rfl

/-! ### The count of chords -/

/-- The counts before the limits are numbers, at least nothing, and in the order of the multipliers. -/
theorem rawSegments_mono (left : s.detailMultiplier.isFinite = true) (right : m.isFinite = true)
    (le : s.detailMultiplier ≤ m) (radiusFinite : radius.isFinite = true) (radiusNonneg : 0 ≤ radius)
    (sweepFinite : sweep.isFinite = true) :
    (rawSegments s radius sweep).isNaN = false ∧
      (rawSegments { s with detailMultiplier := m } radius sweep).isNaN = false ∧
      0 ≤ extended (rawSegments s radius sweep) ∧ extended (rawSegments s radius sweep) ≤
        extended (rawSegments { s with detailMultiplier := m } radius sweep) := by
  obtain ⟨longFinite, longPos, -⟩ := targetLength_spec left radius
  obtain ⟨shortFinite, shortPos, -⟩ := targetLength_spec (s := { s with detailMultiplier := m }) right radius
  have shorter := targetLength_anti left right le radius
  have zero : (0 : Float32).isFinite = true ∧ value 0 = 0 := by decide +kernel
  rw [le_iff zero.1 radiusFinite, zero.2] at radiusNonneg
  obtain ⟨number, compares⟩ := extended_mul radiusFinite (isFinite_abs_of sweepFinite)
  have nonneg : 0 ≤ extended (radius * sweep.abs) := by
    rw [compares, value_abs sweepFinite]
    exact clipped_nonneg (mul_nonneg radiusNonneg (abs_nonneg _))
  rw [rawSegments_eq, rawSegments_eq]
  by_cases finite : (radius * sweep.abs).isFinite = true
  · rw [extended_eq finite] at nonneg
    obtain ⟨fewNumber, few⟩ := extended_div finite longFinite longPos.ne'
    obtain ⟨manyNumber, many⟩ := extended_div finite shortFinite shortPos.ne'
    refine ⟨fewNumber, manyNumber, ?_, ?_⟩
    · rw [few]
      exact clipped_nonneg (div_nonneg nonneg longPos.le)
    · rw [few, many]
      exact clipped_mono (div_le_div_of_nonneg_left nonneg shortPos shorter)
  · rw [eq_infinity_of_nonneg number finite nonneg, infinity_div longFinite longPos, infinity_div shortFinite shortPos]
    have whole : infinity.isNaN = false ∧ 0 ≤ extended infinity := by decide +kernel
    exact ⟨whole.1, whole.1, whole.2, le_rfl⟩

theorem limitedCount_le (s : ArcSettings) (raw : Float32) : limitedCount s raw ≤ max s.maxSegments.toNat 1 := by
  unfold limitedCount
  dsimp only
  split
  · exact min_le_right _ _
  · exact le_rfl

theorem limitedCount_of_infinite (s : ArcSettings) {raw : Float32} (infinite : ¬ raw.isFinite = true) :
    limitedCount s raw = max s.maxSegments.toNat 1 := if_neg infinite

/-- The limits keep the order of counts, of which an infinite one is the greatest. -/
theorem limitedCount_mono (s : ArcSettings) {few many : Float32} (fewNumber : few.isNaN = false)
    (manyNumber : many.isNaN = false) (nonneg : 0 ≤ extended few) (le : extended few ≤ extended many) :
    limitedCount s few ≤ limitedCount s many := by
  by_cases finite : many.isFinite = true
  · have fewFinite : few.isFinite = true := by
      rw [isFinite_iff_extended manyNumber, abs_of_nonneg (nonneg.trans le)] at finite
      rw [isFinite_iff_extended fewNumber, abs_of_nonneg nonneg]
      exact le.trans_lt finite
    rw [extended_eq fewFinite, extended_eq finite] at le
    have count := toNatural32_up_mono fewFinite finite le
    unfold limitedCount
    dsimp only
    rw [fewFinite, finite]
    simp only [if_true]
    omega
  · rw [limitedCount_of_infinite s finite]
    exact limitedCount_le s few

/-- With more detail and otherwise the same settings, no arc has fewer chords. -/
theorem more_detail_no_fewer_chords (checked : s.check = .ok ())
    (checked' : ({ s with detailMultiplier := m } : ArcSettings).check = .ok ()) (le : s.detailMultiplier ≤ m)
    (radiusFinite : radius.isFinite = true) (radiusNonneg : 0 ≤ radius) (sweepFinite : sweep.isFinite = true) :
    segmentCount s radius sweep ≤ segmentCount { s with detailMultiplier := m } radius sweep := by
  have left := (ArcSettings.isFinite_of_check checked).1
  have right : m.isFinite = true := (ArcSettings.isFinite_of_check checked').1
  obtain ⟨fewNumber, manyNumber, nonneg, order⟩ :=
    rawSegments_mono left right le radiusFinite radiusNonneg sweepFinite
  have limited : limitedCount s (rawSegments s radius sweep) ≤ limitedCount { s with detailMultiplier := m }
      (rawSegments { s with detailMultiplier := m } radius sweep) :=
    limitedCount_mono s fewNumber manyNumber nonneg order
  rw [segmentCount_eq, segmentCount_eq]
  split
  · exact max_le_max limited le_rfl
  · exact limited

/-- A multiplier so great that the chord is below every normal number, and the count beyond the range. -/
theorem subnormal_chord_most : ({} : ArcSettings).check = .ok () ∧
    ({ detailMultiplier := 3e38 } : ArcSettings).check = .ok () ∧ (1 : Float32) ≤ 3e38 ∧
    (2 : Float32).isFinite = true ∧ (0 : Float32) ≤ 2 ∧ (-1 : Float32).isFinite = true ∧
    segmentCount {} 2 (-1) ≤ segmentCount { detailMultiplier := 3e38 } 2 (-1) := by
  have checked : ({} : ArcSettings).check = .ok () := by decide +kernel
  have checked' : ({ detailMultiplier := 3e38 } : ArcSettings).check = .ok () := by decide +kernel
  have le : (1 : Float32) ≤ 3e38 := by decide +kernel
  have radius : (2 : Float32).isFinite = true ∧ (0 : Float32) ≤ 2 := by decide +kernel
  have sweep : (-1 : Float32).isFinite = true := by decide +kernel
  exact ⟨checked, checked', le, radius.1, radius.2, sweep,
    more_detail_no_fewer_chords (s := {}) checked checked' le radius.1 radius.2 sweep⟩

end Arc

end Toolpath

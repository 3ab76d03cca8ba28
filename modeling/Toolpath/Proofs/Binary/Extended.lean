import Mathlib
import Toolpath.Proofs.Binary.Finite
import Toolpath.Proofs.Binary.Quotient

/-!
# Comparing with infinities

The infinities are compared as if they stood for the two powers of two next beyond the range. In these terms
every comparison of numbers is one of values, and a result that went beyond the range is its exact value cut off
there.
-/

namespace Toolpath.Single

open Float.Model (UnpackedFloat)
open Float.Model.UnpackedFloat (Sign)

variable {x y a b : Float32} {u w : UnpackedFloat} {v : ℚ}

def extendedOf : UnpackedFloat → ℚ
  | .infinity s => signed s (2 ^ 128)
  | u => valueOf u

/-- What a number is compared as. -/
def extended (x : Float32) : ℚ := extendedOf x.toModel.unpack

/-- An exact value, rounded and cut off at the range. -/
def clipped (v : ℚ) : ℚ := max (-2 ^ 128) (min (2 ^ 128) (rounded v))

theorem clipped_of_inRange (range : InRange v) : clipped v = rounded v := by
  obtain ⟨low, high⟩ := abs_lt.mp (abs_rounded_lt_iff.mpr range)
  rw [clipped, min_eq_right high.le, max_eq_right low.le]

theorem clipped_mono : Monotone clipped := fun _ _ le => max_le_max le_rfl (min_le_min le_rfl (rounded_mono le))

theorem clipped_nonneg (nonneg : 0 ≤ v) : 0 ≤ clipped v :=
  le_max_of_le_right (le_min (by norm_num) (rounded_nonneg nonneg))

theorem clipped_le (nonneg : 0 ≤ v) : clipped v ≤ rounded v :=
  max_le ((by norm_num : -(2 : ℚ) ^ 128 ≤ 0).trans (rounded_nonneg nonneg)) (min_le_right _ _)

theorem clipped_value (x : Float32) : clipped (value x) = value x := by
  rw [clipped_of_inRange (inRange_value x), rounded_exact (exact_value x)]

theorem extended_eq (finite : x.isFinite = true) : extended x = value x := by
  change x.toModel.unpack.isFinite = true at finite
  unfold extended value
  cases unpacked : x.toModel.unpack with
  | infinity s => rw [unpacked] at finite; cases finite
  | _ => rfl

theorem isNaN_eq (x : Float32) : x.isNaN = x.toModel.unpack.isNaN := rfl

theorem isNaN_of_isFinite (finite : x.isFinite = true) : x.isNaN = false := by
  change x.toModel.unpack.isFinite = true at finite
  rw [isNaN_eq]
  cases unpacked : x.toModel.unpack with
  | notANumber => rw [unpacked] at finite; cases finite
  | _ => rfl

/-! ### Order -/

theorem abs_extended_le (x : Float32) : |extended x| ≤ 2 ^ 128 := by
  unfold extended
  cases unpacked : x.toModel.unpack with
  | infinity s =>
    rw [extendedOf, abs_signed]
    norm_num
  | _ =>
    have := abs_value_lt x
    rw [value, unpacked] at this
    exact this.le

theorem isFinite_iff_extended (number : x.isNaN = false) : x.isFinite = true ↔ |extended x| < 2 ^ 128 := by
  constructor
  · intro finite
    rw [extended_eq finite]
    exact abs_value_lt x
  · intro small
    rw [isNaN_eq] at number
    change x.toModel.unpack.isFinite = true
    unfold extended at small
    cases unpacked : x.toModel.unpack with
    | notANumber => rw [unpacked] at number; cases number
    | infinity s =>
      rw [unpacked, extendedOf, abs_signed] at small
      norm_num at small
    | _ => rfl

theorem compare_infinity (s : Sign) (small : |valueOf u| < 2 ^ 128) (finite : u.isFinite = true) :
    (UnpackedFloat.infinity s).compare u = some (compare (signed s (2 ^ 128)) (valueOf u)) := by
  obtain ⟨low, high⟩ := abs_lt.mp small
  cases s with
  | negative =>
    have order : compare (signed .negative (2 ^ 128)) (valueOf u) = .lt := compare_lt_iff_lt.mpr low
    rw [order]
    cases u with
    | infinity | notANumber => cases finite
    | _ => rfl
  | positive =>
    have order : compare (signed .positive (2 ^ 128)) (valueOf u) = .gt := compare_gt_iff_gt.mpr high
    rw [order]
    cases u with
    | infinity | notANumber => cases finite
    | _ => rfl

theorem compare_extended (left : x.isNaN = false) (right : y.isNaN = false) :
    x.toModel.unpack.compare y.toModel.unpack = some (compare (extended x) (extended y)) := by
  have xSmall := abs_value_lt x
  have ySmall := abs_value_lt y
  have xCanonical := canonical_model x
  have yCanonical := canonical_model y
  rw [isNaN_eq] at left right
  unfold value at xSmall ySmall
  unfold extended
  generalize x.toModel.unpack = u at *
  generalize y.toModel.unpack = w at *
  have swapped (s : Sign) (finite : u.isFinite = true) :
      u.compare (.infinity s) = some (compare (valueOf u) (signed s (2 ^ 128))) := by
    rw [compare_swap_model, compare_infinity s xSmall finite, Option.map_some]
    exact congrArg some Std.OrientedCmp.eq_swap.symm
  cases u with
  | notANumber => cases left
  | infinity s =>
    cases w with
    | notANumber => cases right
    | infinity t =>
      cases s <;> cases t
      · exact congrArg some (compare_eq_iff_eq.mpr rfl).symm
      · exact congrArg some (compare_lt_iff_lt.mpr (by norm_num [extendedOf, signed])).symm
      · exact congrArg some (compare_gt_iff_gt.mpr (by norm_num [extendedOf, signed])).symm
      · exact congrArg some (compare_eq_iff_eq.mpr rfl).symm
    | _ => exact compare_infinity s ySmall rfl
  | _ =>
    cases w with
    | notANumber => cases right
    | infinity t => exact swapped t rfl
    | _ => exact compare_eq xCanonical yCanonical rfl rfl

theorem lt_iff_extended (left : x.isNaN = false) (right : y.isNaN = false) : x < y ↔ extended x < extended y := by
  rw [lt_iff_model, UnpackedFloat.lt, compare_extended left right]
  simp [compare_lt_iff_lt]

theorem le_iff_extended (left : x.isNaN = false) (right : y.isNaN = false) : x ≤ y ↔ extended x ≤ extended y := by
  rw [le_iff_model, UnpackedFloat.le, compare_extended left right, Option.any_some, Ordering.isLE_iff_ne_gt,
    compare_gt_iff_gt, not_lt]

theorem lt_asymm (less : x < y) : ¬ y < x := by
  rw [lt_iff_model, UnpackedFloat.lt] at less ⊢
  rw [compare_swap_model]
  generalize x.toModel.unpack.compare y.toModel.unpack = order at *
  rcases order with _ | _ | _ | _ <;> simp_all

theorem isFinite_of_abs_le (le : x.abs ≤ y) (finite : y.isFinite = true) : x.isFinite = true := by
  rw [le_iff_model] at le
  change (ofModel x.toModel.unpack.abs).toModel.unpack.le y.toModel.unpack = true at le
  change x.toModel.unpack.isFinite = true
  change y.toModel.unpack.isFinite = true at finite
  generalize y.toModel.unpack = w at *
  generalize x.toModel.unpack = u at *
  cases u with
  | zero | finite => rfl
  | notANumber => cases w <;> cases le
  | infinity s =>
    change (ofModel (.infinity .positive)).toModel.unpack.le w = true at le
    cases w with
    | infinity | notANumber => cases finite
    | zero => cases le
    | finite t => cases t <;> cases le

theorem beq_iff_extended (left : x.isNaN = false) (right : y.isNaN = false) :
    (x == y) = true ↔ extended x = extended y := by
  change (x.toModel.unpack.compare y.toModel.unpack == some .eq) = true ↔ _
  rw [compare_extended left right]
  simp

theorem beq_zero_iff (finite : x.isFinite = true) : (x == 0) = true ↔ value x = 0 := by
  rw [beq_iff_extended (isNaN_of_isFinite finite) (by decide), extended_eq finite, show extended 0 = 0 by decide +kernel]

/-! ### Choices -/

theorem lesser_number (left : a.isNaN = false) (right : b.isNaN = false) :
    (lesser a b).isNaN = false ∧ extended (lesser a b) = min (extended a) (extended b) := by
  have order := lt_iff_extended right left
  rw [lesser, left, if_neg Bool.false_ne_true]
  split
  · next less => exact ⟨right, (min_eq_right (order.mp less).le).symm⟩
  · next notLess => exact ⟨left, (min_eq_left (not_lt.mp (mt order.mpr notLess))).symm⟩

theorem greater_number (left : a.isNaN = false) (right : b.isNaN = false) :
    (greater a b).isNaN = false ∧ extended (greater a b) = max (extended a) (extended b) := by
  have order := lt_iff_extended left right
  rw [greater, left, if_neg Bool.false_ne_true]
  split
  · next less => exact ⟨right, (max_eq_right (order.mp less).le).symm⟩
  · next notLess => exact ⟨left, (max_eq_left (not_lt.mp (mt order.mpr notLess))).symm⟩

theorem clamp_number (low : a.isNaN = false) (high : b.isNaN = false) (number : x.isNaN = false) :
    (clamp a b x).isNaN = false ∧ extended (clamp a b x) = min (extended b) (max (extended a) (extended x)) := by
  obtain ⟨raised, raises, atLeast⟩ : ∃ y, (if x < a then a else x) = y ∧ y.isNaN = false ∧
      extended y = max (extended a) (extended x) := by
    have order := lt_iff_extended number low
    refine ⟨_, rfl, ?_⟩
    split
    · next less => exact ⟨low, (max_eq_left (order.mp less).le).symm⟩
    · next notLess => exact ⟨number, (max_eq_right (not_lt.mp (mt order.mpr notLess))).symm⟩
  have order := lt_iff_extended high atLeast.1
  unfold clamp
  dsimp only
  rw [raises, ← atLeast.2]
  split
  · next more => exact ⟨high, (min_eq_left (order.mp more).le).symm⟩
  · next notMore => exact ⟨atLeast.1, (min_eq_right (not_lt.mp (mt order.mpr notMore))).symm⟩

/-! ### Results -/

/-- A result beyond the range is an infinity with its sign. -/
theorem Nearest.compares (nearest : Nearest v u) :
    (ofModel u).isNaN = false ∧ extended (ofModel u) = clipped v := by
  have rounds := nearest.rounds
  obtain ⟨canonical, finite, same⟩ := nearest
  by_cases range : InRange v
  · have finite := rounds.finite_iff.mpr range
    refine ⟨isNaN_of_isFinite finite, ?_⟩
    rw [extended_eq finite, rounds.value finite, clipped_of_inRange range]
  · have large : ¬ |valueOf u| < 2 ^ 128 := by rwa [same, abs_rounded_lt_iff]
    cases u with
    | infinity | notANumber => cases finite
    | zero s => exact absurd (by norm_num [valueOf]) large
    | finite s m e pos =>
      rw [abs_valueOf_lt_iff canonical, not_le] at large
      have size : (2 : ℚ) ^ 128 ≤ (m : ℚ) * 2 ^ e := by
        rw [← abs_valueOf_finite s m e pos, ← not_lt, abs_valueOf_lt_iff canonical, not_le]
        exact large
      rw [ofModel_large pos large, clipped, ← same]
      cases s with
      | negative =>
        refine ⟨rfl, ?_⟩
        change -(2 : ℚ) ^ 128 = max (-2 ^ 128) (min (2 ^ 128) (-((m : ℚ) * 2 ^ e)))
        rw [min_eq_right (by linarith), max_eq_left (by linarith)]
      | positive =>
        refine ⟨rfl, ?_⟩
        change (2 : ℚ) ^ 128 = max (-2 ^ 128) (min (2 ^ 128) ((m : ℚ) * 2 ^ e))
        rw [min_eq_left size, max_eq_right (by norm_num)]

section Finite

variable (left : x.isFinite = true) (right : y.isFinite = true)
include left right

theorem extended_sub : (x - y).isNaN = false ∧ extended (x - y) = clipped (value x - value y) :=
  (nearest_sub (canonical_model x) (canonical_model y) left right).compares

theorem extended_mul : (x * y).isNaN = false ∧ extended (x * y) = clipped (value x * value y) :=
  (nearest_mul (canonical_model x) (canonical_model y) left right).compares

theorem extended_div (some : value y ≠ 0) : (x / y).isNaN = false ∧ extended (x / y) = clipped (value x / value y) :=
  (nearest_div (canonical_model x) (canonical_model y) left right some).compares

end Finite

/-! ### Infinity -/

theorem eq_infinity (number : x.isNaN = false) (beyond : extended x = 2 ^ 128) : x = infinity := by
  have small := abs_value_lt x
  rw [isNaN_eq] at number
  unfold value at small
  unfold extended at beyond
  rw [← ofModel_unpack x]
  generalize x.toModel.unpack = u at *
  cases u with
  | notANumber => cases number
  | infinity s =>
    cases s with
    | negative => norm_num [extendedOf, signed] at beyond
    | positive => decide +kernel
  | zero s => norm_num [extendedOf, valueOf] at beyond
  | finite s m e pos =>
    change valueOf (.finite s m e pos) = 2 ^ 128 at beyond
    rw [beyond] at small
    norm_num at small

/-- What is neither finite nor below zero is infinity. -/
theorem eq_infinity_of_nonneg (number : x.isNaN = false) (infinite : ¬ x.isFinite = true)
    (nonneg : 0 ≤ extended x) : x = infinity := by
  apply eq_infinity number
  rw [isFinite_iff_extended number, abs_of_nonneg nonneg, not_lt] at infinite
  exact le_antisymm ((le_abs_self _).trans (abs_extended_le x)) infinite

theorem sub_eq_infinity (left : x.isFinite = true) (right : y.isFinite = true) (le : value y ≤ value x)
    (infinite : ¬ (x - y).isFinite = true) : x - y = infinity := by
  obtain ⟨number, compares⟩ := extended_sub left right
  refine eq_infinity_of_nonneg number infinite ?_
  rw [compares]
  exact clipped_nonneg (by linarith)

/-- A share of infinity is nothing. -/
theorem div_infinity (finite : x.isFinite = true) : (x / infinity).isFinite = true ∧ value (x / infinity) = 0 := by
  have parts : infinity.toModel.unpack = .infinity .positive := unpack_infinity .positive
  have quotient : ∃ s, x / infinity = ofModel (.zero s) := by
    change ∃ s, ofModel (UnpackedFloat.div .binary32 x.toModel.unpack infinity.toModel.unpack) = _
    rw [parts]
    change x.toModel.unpack.isFinite = true at finite
    generalize x.toModel.unpack = u at *
    cases u with
    | infinity | notANumber => cases finite
    | zero s => exact ⟨_, rfl⟩
    | finite s => exact ⟨_, rfl⟩
  obtain ⟨s, zero⟩ := quotient
  rw [zero]
  cases s <;> decide +kernel

/-- Every share of infinity is all of it. -/
theorem infinity_div (finite : x.isFinite = true) (pos : 0 < value x) : infinity / x = infinity := by
  have parts : infinity.toModel.unpack = .infinity .positive := unpack_infinity .positive
  have whole : infinity = ofModel (.infinity .positive) := by decide +kernel
  change ofModel (UnpackedFloat.div .binary32 infinity.toModel.unpack x.toModel.unpack) = _
  rw [parts, whole]
  change x.toModel.unpack.isFinite = true at finite
  unfold value at pos
  generalize x.toModel.unpack = u at *
  cases u with
  | infinity | notANumber => cases finite
  | zero s => exact absurd pos (lt_irrefl 0)
  | finite s m e some =>
    cases s with
    | positive => rfl
    | negative =>
      have nonneg : (0 : ℚ) ≤ m * 2 ^ e := by positivity
      exact absurd pos (not_lt.mpr (neg_nonpos.mpr nonneg))

/-- Of nothing every share is nothing, and its sign is that of the range. -/
theorem zero_div_of_pos (pos : 0 < x) : 0 / x = 0 := by
  have nothing : (0 : Float32).toModel.unpack = .zero .positive := unpack_ofModel_zero .positive
  rw [lt_iff_model, nothing] at pos
  change ofModel (UnpackedFloat.div .binary32 (0 : Float32).toModel.unpack x.toModel.unpack) =
    ofModel (.zero .positive)
  rw [nothing]
  generalize x.toModel.unpack = u at *
  cases u with
  | notANumber | zero => cases pos
  | infinity s | finite s =>
    cases s with
    | negative => cases pos
    | positive => rfl

end Toolpath.Single

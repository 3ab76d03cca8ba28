import Mathlib
import Toolpath.Proofs.Binary.Order

/-!
# Rounding to whole numbers

Rounding a finite number up gives the ceiling of its value, and cutting the result off at the ends of a range keeps
the order of numbers.
-/

namespace Toolpath.Single

open Double (sign)

variable {x y : Float32}

/-- The value of a number as the signed quotient that rounding looks at. -/
theorem value_eq_quotient (finite : x.isFinite = true) :
    value x = ((if isNegative x then -((magnitude x).ratio.num : ℤ) else (magnitude x).ratio.num : ℤ) : ℚ) /
      (magnitude x).ratio.den := by
  rw [value_eq finite, ← Binary.Magnitude.value_ratio, Binary.Ratio.value]
  cases isNegative x with
  | false => simp [sign, signed]
  | true => simp [sign, signed, neg_div]

theorem whole_up (finite : x.isFinite = true) : whole .up x = ⌈value x⌉ := by
  have floor (n : ℤ) : Int.fdiv n (magnitude x).ratio.den = ⌊(n : ℚ) / (magnitude x).ratio.den⌋ := by
    rw [Rat.floor_intCast_div_natCast, Int.fdiv_eq_ediv_of_nonneg _ (Int.natCast_nonneg _)]
  unfold whole
  dsimp only
  rw [floor, ← Int.ceil_neg, value_eq_quotient finite]
  congr 1
  push_cast
  rw [← neg_div, neg_neg]

theorem toNatural32_up_mono (left : x.isFinite = true) (right : y.isFinite = true) (le : value x ≤ value y) :
    toNatural32 .up x ≤ toNatural32 .up y := by
  obtain ⟨xNumber, xBounded⟩ := isFinite_split left
  obtain ⟨yNumber, yBounded⟩ := isFinite_split right
  have order : ⌈value x⌉ ≤ ⌈value y⌉ := Int.ceil_mono le
  unfold toNatural32 wholeWithin
  rw [xNumber, xBounded, yNumber, yBounded, whole_up left, whole_up right]
  simp only [Bool.false_eq_true, if_false]
  omega

end Toolpath.Single

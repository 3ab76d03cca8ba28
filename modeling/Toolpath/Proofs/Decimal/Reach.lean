import Mathlib
import Toolpath.Proofs.Binary.Quotient
import Toolpath.Proofs.Decimal.Numerals

/-!
# Numerals of any size

No numeral is so large or so small that the tests by `reach` change its number in single precision: what is out of
reach is out of range, or rounds to zero. `Numeral.toSingle` is therefore the value of any numeral, rounded.
-/

namespace Toolpath.Decimal.Numeral

open Binary (single)
open Single (InRange Rounds isNegative signed)

variable {n : Numeral}

theorem value_nonneg (n : Numeral) : 0 ≤ n.value := mul_nonneg (Nat.cast_nonneg _) (ten_zpow_pos _).le

/-- The tests by `reach` only spare arithmetic. -/
theorem nearest_single (digits : ∀ c ∈ n.digits, c.isDigit = true) : n.nearest single = single.nearest n.ratio := by
  have den := ratio_den_pos n
  by_cases none : n.leadingDigits = []
  · have zero : n.ratio.num = 0 := by rw [ratio, significand_of_no_leading none, zero_mul]
    unfold nearest Binary.Format.nearest
    rw [none, if_pos zero]
    rfl
  have isEmpty : n.leadingDigits.isEmpty = false := List.isEmpty_eq_false_iff.mpr none
  obtain ⟨least, most⟩ := value_bounds digits none
  unfold nearest reach
  dsimp only
  rw [isEmpty, Bool.false_or]
  split
  · next below =>
    have below := of_decide_eq_true below
    have pos : 0 < n.ratio.value := by
      rw [value_ratio]
      exact (ten_zpow_pos _).trans_le least
    have small : n.ratio.value < 2 ^ (-150 : ℤ) := by
      rw [value_ratio]
      have far : n.place ≤ -100 := by
        unfold place
        omega
      refine most.trans_le ((zpow_le_zpow_right₀ (by norm_num) far).trans ?_)
      norm_num
    exact (Single.nearest_of_small den pos small).symm
  · split
    · next above =>
      have large : ¬ InRange n.ratio.value := by
        rw [value_ratio, InRange, abs_of_nonneg n.value_nonneg, not_lt]
        have far : 100 ≤ n.place - 1 := by
          unfold place
          omega
        refine le_trans ?_ ((zpow_le_zpow_right₀ (by norm_num) far).trans least)
        norm_num
      exact (Single.nearest_of_large den large).symm
    · rfl

theorem toSingle_eq (n : Numeral) :
    n.toSingle = Single.withSign n.negative ((n.nearest single).elim 0x7F800000 single.encode) := by
  unfold toSingle
  cases n.nearest single <;> rfl

/-- The number of a numeral is its value rounded, and it has the sign that is written. -/
theorem rounds_toSingle (digits : ∀ c ∈ n.digits, c.isDigit = true) :
    Rounds (signed (Double.sign n.negative) n.value) n.toSingle ∧ isNegative n.toSingle = n.negative := by
  have same : n.toSingle = Single.ofRatio n.negative n.ratio := by
    rw [toSingle_eq, nearest_single digits, Single.ofRatio_eq]
  have rounds := Single.rounds_ofRatio (ratio_den_pos n) n.negative
  rwa [value_ratio, ← same] at rounds

end Toolpath.Decimal.Numeral

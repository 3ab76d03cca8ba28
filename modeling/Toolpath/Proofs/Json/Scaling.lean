import Toolpath.Json.Codec
import Toolpath.Proofs.Binary.Rounding
import Toolpath.Proofs.Decimal.Digits

/-!
# How far a scaled number is off

A number is read as its digits, a whole number, scaled by a power of ten. The power is rounded and so is the
product or the quotient, so that the result is off by two roundings; up to `10 ^ 22` the power is exact.
-/

namespace Toolpath.Json

open Binary Decimal Double

variable {s : ℕ} {e : ℤ}

theorem ten_pow_le_two_pow (n : ℕ) : (10 : ℚ) ^ n ≤ 2 ^ (4 * n) := by
  rw [pow_mul]
  exact pow_le_pow_left₀ (by norm_num) (by norm_num) n

theorem holds_powerOfTen {n : ℕ} (small : n ≤ 60) :
    ∃ m, Holds (powerOfTen n) m ∧ Rounds (10 ^ n) m ∧ (n ≤ 22 → m.value = 10 ^ n) := by
  have value : Ratio.value ⟨Nat.pow 10 n, 1⟩ = 10 ^ n := by
    change ((10 ^ n : ℕ) : ℚ) / ((1 : ℕ) : ℚ) = _
    push_cast
    ring
  have low : (2 : ℚ) ^ (-1000 : ℤ) ≤ Ratio.value ⟨Nat.pow 10 n, 1⟩ := by
    rw [value]
    exact (zpow_le_one_of_nonpos₀ (by norm_num) (by norm_num)).trans (one_le_pow₀ (by norm_num))
  have high : Ratio.value ⟨Nat.pow 10 n, 1⟩ < (2 : ℚ) ^ (1000 : ℤ) := by
    rw [value]
    refine (ten_pow_le_two_pow n).trans_lt ?_
    rw [← zpow_natCast]
    exact zpow_lt_zpow_right₀ (by norm_num) (by push_cast; omega)
  obtain ⟨m, holds, rounds⟩ := holds_ofRatio (r := ⟨Nat.pow 10 n, 1⟩) Nat.one_pos low high
  rw [value] at rounds
  refine ⟨m, holds, rounds, fun few => ?_⟩
  -- Its odd part is a power of five, which fits.
  have narrow : 5 ^ n < 2 ^ 53 := (Nat.pow_le_pow_right (by decide) few).trans_lt (by norm_num)
  refine rounds.exact narrow (e := n) ?_
  rw [zpow_natCast]
  push_cast
  rw [← mul_pow]
  norm_num

section Errors

variable {a p t v : ℚ} (apos : 1 ≤ a) (awide : a ≤ 2 ^ 53) (tpos : 1 ≤ t) (twide : t ≤ 2 ^ 240)
  (perror : |p - t| ≤ t / 2 ^ 53)

include perror tpos in
theorem power_near : t / 2 ≤ p ∧ p ≤ 2 * t := by
  obtain ⟨low, high⟩ := abs_le.mp perror
  constructor <;> linarith

include apos awide tpos twide perror

theorem product_within : 1 / 2 ^ 250 ≤ a * p ∧ a * p ≤ 2 ^ 300 := by
  obtain ⟨low, high⟩ := power_near tpos perror
  constructor
  · calc (1 : ℚ) / 2 ^ 250 ≤ 1 * (1 / 2) := by norm_num
      _ ≤ a * p := mul_le_mul apos (by linarith) (by norm_num) (by linarith)
  · calc a * p ≤ 2 ^ 53 * (2 * 2 ^ 240) := mul_le_mul awide (by linarith) (by linarith) (by norm_num)
      _ = 2 ^ 294 := by rw [← pow_succ', ← pow_add]
      _ ≤ 2 ^ 300 := pow_le_pow_right₀ (by norm_num) (by norm_num)

theorem quotient_within : 1 / 2 ^ 250 ≤ a / p ∧ a / p ≤ 2 ^ 300 := by
  obtain ⟨low, high⟩ := power_near tpos perror
  have ppos : 0 < p := by linarith
  constructor
  · rw [div_le_div_iff₀ (by norm_num) ppos]
    calc 1 * p ≤ 2 * 2 ^ 240 := by linarith
      _ ≤ 1 * 2 ^ 250 := by norm_num
      _ ≤ a * 2 ^ 250 := mul_le_mul_of_nonneg_right apos (by norm_num)
  · rw [div_le_iff₀ ppos]
    calc a ≤ 2 ^ 53 := awide
      _ = 2 ^ 54 * (1 / 2) := by norm_num
      _ ≤ 2 ^ 300 * (1 / 2) :=
          mul_le_mul_of_nonneg_right (pow_le_pow_right₀ (by norm_num) (by norm_num)) (by norm_num)
      _ ≤ 2 ^ 300 * p := mul_le_mul_of_nonneg_left (by linarith) (by norm_num)

omit awide twide in
theorem product_error (error : |v - a * p| ≤ a * p / 2 ^ 53) : |v - a * t| ≤ a * t / 2 ^ 51 := by
  obtain ⟨_, high⟩ := power_near tpos perror
  have power : |a * p - a * t| ≤ a * (t / 2 ^ 53) := by
    rw [← mul_sub, abs_mul, abs_of_nonneg (by linarith)]
    exact mul_le_mul_of_nonneg_left perror (by linarith)
  have product : a * p ≤ a * (2 * t) := mul_le_mul_of_nonneg_left high (by linarith)
  have positive : 0 ≤ a * t := mul_nonneg (by linarith) (by linarith)
  calc |v - a * t| ≤ |v - a * p| + |a * p - a * t| := abs_sub_le _ _ _
    _ ≤ a * p / 2 ^ 53 + a * (t / 2 ^ 53) := add_le_add error power
    _ ≤ a * t / 2 ^ 51 := by linarith

omit awide twide in
theorem quotient_error (error : |v - a / p| ≤ a / p / 2 ^ 53) : |v - a * t⁻¹| ≤ a * t⁻¹ / 2 ^ 51 := by
  obtain ⟨low, _⟩ := power_near tpos perror
  have ppos : 0 < p := by linarith
  have tpos : 0 < t := by linarith
  have quotient : a / p ≤ 2 * (a * t⁻¹) := by
    rw [div_le_iff₀ ppos]
    calc a = 2 * (a * t⁻¹) * (t / 2) := by field_simp
      _ ≤ 2 * (a * t⁻¹) * p := mul_le_mul_of_nonneg_left low (by positivity)
  have power : |a / p - a * t⁻¹| ≤ a / p / 2 ^ 53 := by
    have split : a / p - a * t⁻¹ = a / p * ((t - p) / t) := by field_simp
    have share : |(t - p) / t| ≤ 1 / 2 ^ 53 := by
      rw [abs_div, abs_of_pos tpos, div_le_iff₀ tpos, abs_sub_comm]
      linarith
    rw [split, abs_mul, abs_of_nonneg (by positivity), div_eq_mul_one_div _ (2 ^ 53)]
    exact mul_le_mul_of_nonneg_left share (by positivity)
  calc |v - a * t⁻¹| ≤ |v - a / p| + |a / p - a * t⁻¹| := abs_sub_le _ _ _
    _ ≤ a / p / 2 ^ 53 + a / p / 2 ^ 53 := add_le_add error power
    _ ≤ a * t⁻¹ / 2 ^ 51 := by linarith

end Errors

/-- A whole number of at most 53 bits scaled by a power of ten. -/
theorem scaleByTen_spec (pos : 0 < s) (narrow : s < 2 ^ 53) (low : -60 ≤ e) (high : e ≤ 60) :
    ∃ y m, scaleByTen 4 (UInt64.ofNat s).toFloat e = some y ∧ Holds y m ∧
      |m.value - s * 10 ^ e| ≤ s * 10 ^ e / 2 ^ 51 ∧ (e.natAbs ≤ 22 → Rounds (s * 10 ^ e) m) := by
  obtain ⟨a, ha, avalue⟩ := holds_toFloat pos narrow
  obtain ⟨p, hp, prounds, pexact⟩ := holds_powerOfTen (n := e.natAbs) (by omega)
  have apos : (1 : ℚ) ≤ s := by exact_mod_cast pos
  have awide : (s : ℚ) ≤ 2 ^ 53 := by exact_mod_cast narrow.le
  have tpos : (1 : ℚ) ≤ 10 ^ e.natAbs := one_le_pow₀ (by norm_num)
  have twide : (10 : ℚ) ^ e.natAbs ≤ 2 ^ 240 :=
    (ten_pow_le_two_pow _).trans (pow_le_pow_right₀ (by norm_num) (by omega))
  unfold scaleByTen
  rw [if_pos (by omega)]
  by_cases up : 0 ≤ e
  · have power : (10 : ℚ) ^ e = 10 ^ e.natAbs := by
      rw [← zpow_natCast]
      congr 1
      omega
    obtain ⟨least, most⟩ := product_within apos awide tpos twide prounds.error
    rw [← avalue] at least most
    obtain ⟨m, hm, rounds⟩ := holds_mul ha hp (within_double least most).1 (within_double least most).2
    refine ⟨_, m, ?_, hm, ?_, ?_⟩
    · rw [if_pos up]
      dsimp only
      rw [hm.1.isInf]
      rfl
    · rw [power]
      have error := rounds.error
      rw [avalue] at error
      exact product_error apos tpos prounds.error error
    · intro few
      rw [power, ← pexact few, ← avalue]
      exact rounds
  · have power : (10 : ℚ) ^ e = (10 ^ e.natAbs)⁻¹ := by
      rw [← zpow_natCast, ← zpow_neg]
      congr 1
      omega
    obtain ⟨least, most⟩ := quotient_within apos awide tpos twide prounds.error
    rw [← avalue] at least most
    obtain ⟨m, hm, rounds⟩ := holds_div ha hp (within_double least most).1 (within_double least most).2
    refine ⟨_, m, ?_, hm, ?_, ?_⟩
    · rw [if_neg up]
    · rw [power]
      have error := rounds.error
      rw [avalue] at error
      exact quotient_error apos tpos prounds.error error
    · intro few
      rw [power, ← pexact few, ← avalue, ← div_eq_mul_inv]
      exact rounds

end Toolpath.Json

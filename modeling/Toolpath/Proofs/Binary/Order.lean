import Mathlib
import Toolpath.Proofs.Binary.Quotient

/-!
# The order of numbers

The bits of a magnitude grow with its value, so that `Single.orderKey` puts finite numbers in the order of their
values. Only the two zeros have one value under different keys.
-/

namespace Toolpath

namespace Binary.Format

theorem decode_parts (f : Format) {field fraction : ℕ} (short : fraction < 2 ^ (f.precision - 1)) :
    f.decode (field * 2 ^ (f.precision - 1) + fraction) =
      if field = 0 then ⟨fraction, f.lowest⟩ else ⟨2 ^ (f.precision - 1) + fraction, f.lowest + field - 1⟩ := by
  have pos : 0 < 2 ^ (f.precision - 1) := Nat.two_pow_pos _
  have quotient : (field * 2 ^ (f.precision - 1) + fraction) / 2 ^ (f.precision - 1) = field := by
    rw [mul_comm, Nat.mul_add_div pos, Nat.div_eq_of_lt short, add_zero]
  have remainder : (field * 2 ^ (f.precision - 1) + fraction) % 2 ^ (f.precision - 1) = fraction := by
    rw [mul_comm, Nat.mul_add_mod, Nat.mod_eq_of_lt short]
  unfold decode
  simp only [Nat.shiftLeft_eq, one_mul, quotient, remainder]

/-- One more in the bits is one more unit, or the first magnitude with the next exponent. -/
theorem value_decode_succ (f : Format) (bits : ℕ) : (f.decode bits).value ≤ (f.decode (bits + 1)).value := by
  have pos : 0 < 2 ^ (f.precision - 1) := Nat.two_pow_pos _
  obtain ⟨field, fraction, short, rfl⟩ : ∃ field fraction, fraction < 2 ^ (f.precision - 1) ∧
      bits = field * 2 ^ (f.precision - 1) + fraction :=
    ⟨_, _, Nat.mod_lt bits pos, (Nat.div_add_mod' bits _).symm⟩
  rcases Nat.lt_or_ge (fraction + 1) (2 ^ (f.precision - 1)) with within | carry
  · rw [add_assoc, decode_parts f short, decode_parts f within]
    split
    · exact mul_le_mul_of_nonneg_right (by push_cast; linarith) (two_zpow_pos _).le
    · exact mul_le_mul_of_nonneg_right (by push_cast; linarith) (two_zpow_pos _).le
  · have full : fraction + 1 = 2 ^ (f.precision - 1) := by omega
    have next : field * 2 ^ (f.precision - 1) + fraction + 1 = (field + 1) * 2 ^ (f.precision - 1) + 0 := by
      rw [add_assoc, full]
      ring
    have size : (fraction : ℚ) ≤ 2 ^ (f.precision - 1) := by exact_mod_cast short.le
    rw [next, decode_parts f short, decode_parts f pos, if_neg (Nat.succ_ne_zero field)]
    unfold Magnitude.value
    split
    · next least =>
      rw [least]
      push_cast
      rw [add_sub_cancel_right, add_zero]
      exact mul_le_mul_of_nonneg_right size (two_zpow_pos _).le
    · have step : f.lowest + ((field + 1 : ℕ) : ℤ) - 1 = f.lowest + field - 1 + 1 := by
        push_cast
        ring
      rw [step, two_zpow_succ]
      push_cast
      rw [add_zero, ← mul_assoc]
      exact mul_le_mul_of_nonneg_right (by linarith) (two_zpow_pos _).le

theorem value_decode_mono (f : Format) : Monotone fun bits => (f.decode bits).value :=
  monotone_nat_of_le_succ (value_decode_succ f)

end Binary.Format

namespace Single

open Binary (single two_zpow_pos)
open Float.Model.UnpackedFloat (Sign)
open Double (sign)

variable {x y : Float32}

theorem full_magnitude (finite : x.isFinite = true) : Full (magnitude x) :=
  have fits := fits_magnitude finite
  ⟨fits.narrow, fits.lowest, fits.full⟩

/-- The value of a number is that of its magnitude, with the sign of the number. -/
theorem value_eq (finite : x.isFinite = true) : value x = signed (sign (isNegative x)) (magnitude x).value := by
  rcases Nat.eq_zero_or_pos (magnitude x).significand with zero | pos
  · have none : (magnitude x).value = 0 := by rw [Binary.Magnitude.value, zero, Nat.cast_zero, zero_mul]
    rw [none]
    rcases eq_zero zero with rfl | rfl <;> decide +kernel
  · have full := full_magnitude finite
    have packed : x = ofModel (.finite (sign (isNegative x)) _ _ pos) :=
      (ofBits_sign_magnitude x).symm.trans
        (withSign_encode full pos (fits_magnitude finite).highest (isNegative x))
    have canonical : Canonical (.finite (sign (isNegative x)) _ _ pos) := ⟨full.narrow, full.lowest, full.full⟩
    have nearest : Nearest (signed (sign (isNegative x)) (magnitude x).value)
        (.finite (sign (isNegative x)) _ _ pos) := Nearest.self canonical rfl
    have exact : rounded (signed (sign (isNegative x)) (magnitude x).value) =
        signed (sign (isNegative x)) (magnitude x).value := nearest.value.symm
    have same := nearest.rounds.value
    rw [← packed, exact] at same
    exact same finite

theorem toNat_toBits_lt (x : Float32) : x.toBits.toNat < 2 ^ 32 := x.toBits.toBitVec.isLt

theorem isNegative_iff : isNegative x = true ↔ 2 ^ 31 ≤ x.toBits.toNat := decide_eq_true_iff

theorem magnitude_le {a b : Float32} (le : a.toBits.toNat % 2 ^ 31 ≤ b.toBits.toNat % 2 ^ 31) :
    (magnitude a).value ≤ (magnitude b).value :=
  Binary.Format.value_decode_mono single le

theorem magnitude_nonneg (x : Float32) : 0 ≤ (magnitude x).value :=
  mul_nonneg (Nat.cast_nonneg _) (two_zpow_pos _).le

/-- Finite numbers in the order of their keys are in the order of their values. -/
theorem value_le_of_orderKey_le (left : x.isFinite = true) (right : y.isFinite = true)
    (le : orderKey x ≤ orderKey y) : value x ≤ value y := by
  have xSmall := toNat_toBits_lt x
  have ySmall := toNat_toBits_lt y
  have xSign := @isNegative_iff x
  have ySign := @isNegative_iff y
  have xSize := magnitude_nonneg x
  have ySize := magnitude_nonneg y
  rw [value_eq left, value_eq right]
  unfold orderKey at le
  cases xNegative : isNegative x <;> cases yNegative : isNegative y <;>
    simp only [xNegative, yNegative, if_true, if_false, Bool.false_eq_true, true_iff, false_iff, not_le]
      at le xSign ySign
  · exact magnitude_le (by omega)
  · omega
  · exact (neg_nonpos.mpr xSize).trans ySize
  · exact neg_le_neg (magnitude_le (by omega))

theorem eq_of_orderKey_eq (same : orderKey x = orderKey y) : x = y := by
  have xSmall := toNat_toBits_lt x
  have ySmall := toNat_toBits_lt y
  have xSign := @isNegative_iff x
  have ySign := @isNegative_iff y
  have bits : x.toBits.toNat = y.toBits.toNat := by
    unfold orderKey at same
    cases xNegative : isNegative x <;> cases yNegative : isNegative y <;>
      simp only [xNegative, yNegative, if_true, if_false, Bool.false_eq_true, true_iff, false_iff, not_le]
        at same xSign ySign <;> omega
  rw [← Float32.ofBits_toBits x, ← Float32.ofBits_toBits y, UInt32.toNat_inj.mp bits]

/-- Every finite number lies between the least and the greatest one. -/
theorem value_largest (finite : x.isFinite = true) : value (-largest) ≤ value x ∧ value x ≤ value largest := by
  have ends : largest.isFinite = true ∧ (-largest).isFinite = true ∧ orderKey largest = 0x7F7FFFFF ∧
      orderKey (-largest) = -0x7F800000 := by decide +kernel
  have bits := bits_lt_of_finite finite
  have size := toNat_toBits_lt x
  have sign := @isNegative_iff x
  have limit : single.limit = 0x7F800000 := by decide
  have between : -0x7F800000 ≤ orderKey x ∧ orderKey x ≤ 0x7F7FFFFF := by
    unfold orderKey
    cases negative : isNegative x <;>
      simp only [negative, if_true, if_false, Bool.false_eq_true, true_iff, false_iff, not_le] at sign ⊢ <;> omega
  exact ⟨value_le_of_orderKey_le ends.2.1 finite (ends.2.2.2.trans_le between.1),
    value_le_of_orderKey_le finite ends.1 (between.2.trans_eq ends.2.2.1.symm)⟩

end Single

end Toolpath

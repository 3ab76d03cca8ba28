import Toolpath.Proofs.Binary.Bits

/-!
# Products and quotients of doubles

A product or a quotient of doubles, and the double of a natural number, is the exact value rounded to full
width. `Rounds` says what is needed of this: the result is a multiple of the unit, at most half a unit away,
and so it is exact for a value that fits.
-/

namespace Toolpath.Double

open Binary
open Float.Model (UnpackedFloat Format totalExponent)
open Float.Model.UnpackedFloat (Accuracy ExtendedMantissa Sign accuracyOfFraction divCore roundWithAccuracy
  shiftToTargetExponent)

/-! ### Significands with two more bits -/

/-- The quotient with its first bit after the point, and whether anything follows that. -/
def extended (n d : ℕ) : ExtendedMantissa :=
  ⟨n / d, decide (d ≤ 2 * (n % d)), decide (n % d ≠ 0 ∧ 2 * (n % d) ≠ d)⟩

theorem extended_one (n : ℕ) : ExtendedMantissa.ofMantissaAndAccuracy n .exact = extended n 1 := by
  simp [ExtendedMantissa.ofMantissaAndAccuracy, extended, Nat.mod_one]

theorem extended_fraction (n : ℕ) {d : ℕ} (pos : 0 < d) :
    ExtendedMantissa.ofMantissaAndAccuracy (n / d) (accuracyOfFraction (n % d) d) = extended n d := by
  unfold accuracyOfFraction extended
  split
  · next zero =>
    rw [zero]
    simp [ExtendedMantissa.ofMantissaAndAccuracy, pos.ne']
  · next some =>
    rcases lt_trichotomy (2 * (n % d)) d with less | same | more
    · rw [Nat.compare_eq_lt.mpr less]
      simp [ExtendedMantissa.ofMantissaAndAccuracy, some, less, less.ne]
    · rw [Nat.compare_eq_eq.mpr same]
      simp [ExtendedMantissa.ofMantissaAndAccuracy, same]
    · rw [Nat.compare_eq_gt.mpr more]
      simp [ExtendedMantissa.ofMantissaAndAccuracy, some, more.le, more.ne']

theorem shiftRightOne_extended (n : ℕ) {d : ℕ} (pos : 0 < d) :
    (extended n d).shiftRightOne = extended n (d * 2) := by
  have parts : n % (d * 2) = n % d + d * (n / d % 2) := Nat.mod_mul
  have rest := Nat.mod_lt n pos
  unfold ExtendedMantissa.shiftRightOne extended
  rw [Nat.div_div_eq_div_mul, parts]
  rcases Nat.mod_two_eq_zero_or_one (n / d) with even | odd
  · rw [even]
    congr 1
    · simp; omega
    · rw [← Bool.decide_or, decide_eq_decide]
      omega
  · rw [odd]
    congr 1
    · simp; omega
    · rw [← Bool.decide_or, decide_eq_decide]
      omega

theorem shiftRight_extended (n : ℕ) {d : ℕ} (pos : 0 < d) (k : ℕ) :
    extended n d >>> k = extended n (d * 2 ^ k) := by
  induction k with
  | zero =>
    rw [pow_zero, mul_one]
    rfl
  | succ k ih =>
    have step : extended n d >>> (k + 1) = (extended n d >>> k).shiftRightOne := rfl
    rw [step, ih, shiftRightOne_extended n (by positivity), pow_succ, mul_assoc]

theorem roundedMantissa_extended (n : ℕ) {d : ℕ} (pos : 0 < d) : (extended n d).roundedMantissa =
    if 2 * (n % d) < d then n / d else if 2 * (n % d) = d then n / d + n / d % 2 else n / d + 1 := by
  unfold extended
  generalize n / d = q
  generalize n % d = s
  rcases Nat.lt_trichotomy (2 * s) d with less | half | more
  · rw [if_pos less, decide_eq_false (by omega : ¬ d ≤ 2 * s)]
    by_cases some : s ≠ 0 ∧ 2 * s ≠ d
    · rw [decide_eq_true some]
      rfl
    · rw [decide_eq_false some]
      rfl
  · rw [if_neg (by omega), if_pos half, decide_eq_true (by omega : d ≤ 2 * s),
      decide_eq_false (fun some => some.2 half)]
    rfl
  · rw [if_neg (by omega), if_neg (by omega), decide_eq_true (by omega : d ≤ 2 * s),
      decide_eq_true (by omega : s ≠ 0 ∧ 2 * s ≠ d)]
    rfl

theorem roundedMantissa_bounds (n : ℕ) {d : ℕ} (pos : 0 < d) :
    let r := (extended n d).roundedMantissa
    2 * (d * r) ≤ 2 * n + d ∧ 2 * n ≤ 2 * (d * r) + d ∧ n / d ≤ r ∧ r ≤ n / d + 1 := by
  have parts : d * (n / d) + n % d = n := Nat.div_add_mod n d
  have rest := Nat.mod_lt n pos
  rw [roundedMantissa_extended n pos]
  generalize n / d = q at *
  generalize n % d = s at *
  rcases Nat.mod_two_eq_zero_or_one q with even | odd
  · rw [even, add_zero]
    have next : d * (q + 1) = d * q + d := Nat.mul_succ d q
    dsimp only
    split_ifs <;> omega
  · rw [odd]
    have next : d * (q + 1) = d * q + d := Nat.mul_succ d q
    dsimp only
    split_ifs <;> omega

/-! ### Rounding to full width -/

/-- The result of rounding a number: a multiple of the unit of the number in full width, and at most half a
unit away from it. -/
def Rounds (v : ℚ) (m : Magnitude) : Prop :=
  ∃ (t : ℤ) (r : ℕ), 2 ^ 52 * 2 ^ t ≤ v ∧ v < 2 ^ 53 * 2 ^ t ∧ m.value = r * 2 ^ t ∧ |m.value - v| ≤ 2 ^ t / 2

variable {v : ℚ} {m : Magnitude}

theorem Rounds.error (rounds : Rounds v m) : |m.value - v| ≤ v / 2 ^ 53 := by
  obtain ⟨t, r, low, _, _, near⟩ := rounds
  have : (2 : ℚ) ^ t ≤ v / 2 ^ 52 := by
    rw [le_div_iff₀ (by positivity)]
    linarith
  rw [pow_succ]
  linarith

/-- A number of at most 53 bits is its own result. -/
theorem Rounds.exact (rounds : Rounds v m) {s : ℕ} {e : ℤ} (narrow : s < 2 ^ 53) (same : v = s * 2 ^ e) :
    m.value = v := by
  obtain ⟨t, r, low, high, multiple, near⟩ := rounds
  have tpos := two_zpow_pos t
  have small : (s : ℚ) < 2 ^ 53 := by exact_mod_cast narrow
  have coarse : t ≤ e := by
    have less : 2 ^ 52 * (2 : ℚ) ^ t < 2 ^ (52 + 1) * 2 ^ e := by
      calc 2 ^ 52 * (2 : ℚ) ^ t ≤ v := low
        _ = s * 2 ^ e := same
        _ < 2 ^ 53 * 2 ^ e := mul_lt_mul_of_pos_right small (two_zpow_pos e)
    exact Binary.Format.le_of_scaled less
  have split : (2 : ℚ) ^ e = 2 ^ (e - t).toNat * 2 ^ t := by
    rw [← zpow_natCast, ← zpow_add₀ (by norm_num)]
    congr 1
    omega
  rw [multiple, same, split] at near ⊢
  rw [← mul_assoc, ← sub_mul, abs_mul, abs_of_pos tpos] at near
  have close : |(r : ℚ) - s * 2 ^ (e - t).toNat| ≤ 1 / 2 := by
    refine le_of_mul_le_mul_right ?_ tpos
    linarith
  have whole : |(r : ℤ) - s * 2 ^ (e - t).toNat| < 1 := by
    have : |(r : ℚ) - s * 2 ^ (e - t).toNat| < 1 := by linarith
    exact_mod_cast this
  have equal : (r : ℤ) = s * 2 ^ (e - t).toNat := by
    have := Int.abs_lt_one_iff.mp whole
    omega
  have equal : (r : ℚ) = s * 2 ^ (e - t).toNat := by exact_mod_cast equal
  rw [equal, mul_assoc]

theorem targetExponent_eq (t : ℤ) : Format.binary64.targetExponent t = max (t - 53) (-1074) := by
  simp only [Format.targetExponent, Format.mantissaBits, Format.minExponent]
  norm_num

theorem targetExponent_totalExponent (n : ℕ) (e : ℤ) :
    Format.binary64.targetExponent (totalExponent n e) = max ((n.log2 : ℤ) + e - 52) (-1074) := by
  rw [targetExponent_eq, totalExponent]
  congr 1
  omega

theorem shiftToTargetExponent_eq {q n d k : ℕ} {e : ℤ} {accuracy : Accuracy} (pos : 0 < d)
    (exact : ExtendedMantissa.ofMantissaAndAccuracy q accuracy = extended n d)
    (shift : (max ((q.log2 : ℤ) + e - 52) (-1074) - e).toNat = k) :
    shiftToTargetExponent .binary64 q e accuracy = (extended n (d * 2 ^ k), e + k) := by
  unfold shiftToTargetExponent UnpackedFloat.shiftToExponent
  dsimp only
  rw [targetExponent_totalExponent, shift, exact, shiftRight_extended n pos]

/-- Carrying out of full width moves the exponent up by one. -/
theorem shift_rounded {r : ℕ} {t : ℤ} (full : 2 ^ 52 ≤ r) (most : r ≤ 2 ^ 53) (normal : -1074 ≤ t) :
    ∃ m : Magnitude, 2 ^ 52 ≤ m.significand ∧ m.significand < 2 ^ 53 ∧ m.value = r * 2 ^ t ∧ t ≤ m.exponent ∧
      m.exponent ≤ t + 1 ∧ (shiftToTargetExponent .binary64 r t .exact).1.mantissa = m.significand ∧
      (shiftToTargetExponent .binary64 r t .exact).2 = m.exponent := by
  rcases Nat.lt_or_eq_of_le most with less | rfl
  · have log : r.log2 = 52 := (Nat.log2_eq_iff (by omega)).mpr ⟨full, less⟩
    rw [shiftToTargetExponent_eq Nat.one_pos (extended_one r) (k := 0) (by omega)]
    exact ⟨⟨r, t⟩, full, less, rfl, le_refl _, by dsimp only; omega, by simp [extended], by simp⟩
  · have log : (2 ^ 53).log2 = 53 := Nat.log2_two_pow
    rw [shiftToTargetExponent_eq Nat.one_pos (extended_one (2 ^ 53)) (k := 1) (by omega)]
    refine ⟨⟨2 ^ 52, t + 1⟩, le_refl _, by norm_num, ?_, by dsimp only; omega, le_refl _, by simp [extended],
      by simp⟩
    simp only [Magnitude.value, two_zpow_succ]
    norm_num
    ring

/-- Rounding a quotient of at least full width. -/
theorem roundWithAccuracy_eq {n d : ℕ} {e : ℤ} {accuracy : Accuracy} (s : Sign) (pos : 0 < d)
    (exact : ExtendedMantissa.ofMantissaAndAccuracy (n / d) accuracy = extended n d) (full : 2 ^ 52 ≤ n / d)
    (low : (2 : ℚ) ^ (-1000 : ℤ) ≤ n / d * 2 ^ e) (high : n / d * (2 : ℚ) ^ e < 2 ^ (1000 : ℤ)) :
    ∃ (m : Magnitude) (mpos : 0 < m.significand), double.Fits m ∧ 2 ^ 52 ≤ m.significand ∧
      Rounds (n / d * 2 ^ e) m ∧
      roundWithAccuracy .binary64 s (n / d) e accuracy = .finite s m.significand m.exponent mpos := by
  have dpos : (0 : ℚ) < d := by exact_mod_cast pos
  have epos := two_zpow_pos e
  have log : 52 ≤ (n / d).log2 := (Nat.le_log2 (by omega)).mpr full
  obtain ⟨k, log_eq⟩ : ∃ k, (n / d).log2 = 52 + k := ⟨(n / d).log2 - 52, by omega⟩
  obtain ⟨above, below⟩ := (Nat.log2_eq_iff (by omega)).mp log_eq
  -- The value in full width.
  have scale : (2 : ℚ) ^ (e + k) = 2 ^ e * 2 ^ k := by rw [zpow_add₀ (by norm_num), zpow_natCast]
  have valueLow : 2 ^ 52 * (2 : ℚ) ^ (e + k) ≤ n / d * 2 ^ e := by
    have : (2 ^ 52 * 2 ^ k : ℕ) * d ≤ n := by
      rw [← pow_add]
      exact (Nat.mul_le_mul_right d above).trans (Nat.div_mul_le_self n d)
    have : (2 ^ 52 * 2 ^ k : ℚ) * d ≤ n := by exact_mod_cast this
    have : (2 ^ 52 * 2 ^ k : ℚ) ≤ n / d := (le_div_iff₀ dpos).mpr this
    rw [scale]
    linarith [mul_le_mul_of_nonneg_right this epos.le]
  have valueHigh : n / d * 2 ^ e < 2 ^ 53 * (2 : ℚ) ^ (e + k) := by
    have : n < (2 ^ 53 * 2 ^ k : ℕ) * d := by
      rw [← pow_add, show 53 + k = 52 + k + 1 by omega]
      exact (Nat.div_lt_iff_lt_mul pos).mp below
    have : (n : ℚ) < (2 ^ 53 * 2 ^ k : ℚ) * d := by exact_mod_cast this
    have : (n / d : ℚ) < 2 ^ 53 * 2 ^ k := (div_lt_iff₀ dpos).mpr this
    rw [scale]
    linarith [mul_lt_mul_of_pos_right this epos]
  have normal : -1074 ≤ e + k := by
    have less : 2 ^ 52 * (2 : ℚ) ^ (-1074 : ℤ) < 2 ^ (52 + 1) * 2 ^ (e + k) := by
      refine lt_of_le_of_lt ?_ (low.trans_lt valueHigh)
      rw [← zpow_natCast, ← zpow_add₀ (by norm_num)]
      exact zpow_le_zpow_right₀ (by norm_num) (by norm_num)
    exact Binary.Format.le_of_scaled less
  have least : e + k ≤ 970 := by
    have less : 2 ^ 52 * (2 : ℚ) ^ (e + k) < 2 ^ (52 + 1) * 2 ^ (970 : ℤ) := by
      refine lt_of_lt_of_le (valueLow.trans_lt high) ?_
      rw [← zpow_natCast, ← zpow_add₀ (by norm_num)]
      exact zpow_le_zpow_right₀ (by norm_num) (by norm_num)
    exact Binary.Format.le_of_scaled less
  -- The first shift brings it there, and rounds.
  have first : shiftToTargetExponent .binary64 (n / d) e accuracy = (extended n (d * 2 ^ k), e + k) :=
    shiftToTargetExponent_eq pos exact (by omega)
  obtain ⟨floorLow, floorHigh⟩ : 2 ^ 52 ≤ n / (d * 2 ^ k) ∧ n / (d * 2 ^ k) < 2 ^ 53 := by
    rw [← Nat.div_div_eq_div_mul, Nat.le_div_iff_mul_le (by positivity), Nat.div_lt_iff_lt_mul (by positivity),
      ← pow_add, ← pow_add]
    exact ⟨above, by rwa [show 53 + k = 52 + k + 1 by omega]⟩
  obtain ⟨roundLow, roundHigh, floorLe, leFloor⟩ := roundedMantissa_bounds n (show 0 < d * 2 ^ k by positivity)
  obtain ⟨m, mfull, mnarrow, mvalue, mlow, mhigh, mantissa, exponent⟩ :=
    shift_rounded (t := e + k) (floorLow.trans floorLe) (by omega) normal
  refine ⟨m, by omega, ⟨mnarrow, Or.inl mfull, ?_, ?_⟩, mfull, ?_, ?_⟩
  · change -1074 ≤ m.exponent
    omega
  · change m.exponent ≤ 971
    omega
  · refine ⟨e + k, _, valueLow, valueHigh, mvalue, ?_⟩
    rw [mvalue]
    generalize (extended n (d * 2 ^ k)).roundedMantissa = r at *
    have low : (2 : ℚ) * (d * 2 ^ k * r) ≤ 2 * n + d * 2 ^ k := by exact_mod_cast roundLow
    have high : (2 : ℚ) * n ≤ 2 * (d * 2 ^ k * r) + d * 2 ^ k := by exact_mod_cast roundHigh
    have split : (r : ℚ) * 2 ^ (e + k) - n / d * 2 ^ e = (d * 2 ^ k * r - n) / d * 2 ^ e := by
      rw [scale]
      field_simp
    rw [split, scale, abs_mul, abs_of_pos epos, abs_div, abs_of_pos dpos]
    have : |(d : ℚ) * 2 ^ k * r - n| ≤ d * 2 ^ k / 2 := abs_le.mpr ⟨by linarith, by linarith⟩
    have : |(d : ℚ) * 2 ^ k * r - n| / d ≤ 2 ^ k / 2 := by
      rw [div_le_iff₀ dpos]
      linarith
    linarith [mul_le_mul_of_nonneg_right this epos.le]
  · unfold roundWithAccuracy
    rw [first]
    dsimp only
    rw [dif_neg (by omega)]
    simp only [mantissa, exponent]

/-! ### Operations -/

/-- A double in full width with this value. -/
def Holds (x : Float) (m : Magnitude) : Prop := Stands x false m ∧ 2 ^ 52 ≤ m.significand

variable {x y : Float} {a b : Magnitude}

theorem holds_mul (hx : Holds x a) (hy : Holds y b) (low : (2 : ℚ) ^ (-1000 : ℤ) ≤ a.value * b.value)
    (high : a.value * b.value < (2 : ℚ) ^ (1000 : ℤ)) :
    ∃ m, Holds (x * y) m ∧ Rounds (a.value * b.value) m := by
  have value : a.value * b.value = ((a.significand * b.significand : ℕ) : ℚ) / (1 : ℕ)
      * 2 ^ (a.exponent + b.exponent) := by
    simp only [Magnitude.value, zpow_add₀ (show (2 : ℚ) ≠ 0 by norm_num)]
    push_cast
    ring
  have full : 2 ^ 52 ≤ a.significand * b.significand / 1 := by
    rw [Nat.div_one]
    have := Nat.mul_le_mul hx.2 hy.2
    omega
  rw [value] at low high ⊢
  obtain ⟨m, mpos, fits, wide, rounds, result⟩ :=
    roundWithAccuracy_eq .positive Nat.one_pos (by rw [Nat.div_one]; exact extended_one _) full low high
  refine ⟨m, ⟨stands_of_pack fits mpos ?_, wide⟩, rounds⟩
  change Float.Model.pack (UnpackedFloat.mul .binary64 x.toModel.unpack y.toModel.unpack) = _
  rw [hx.1.unpack, hy.1.unpack]
  rw [Nat.div_one] at result
  exact congrArg Float.Model.pack result

section Division

variable (fa : 2 ^ 52 ≤ a.significand) (na : a.significand < 2 ^ 53) (fb : 2 ^ 52 ≤ b.significand)
  (nb : b.significand < 2 ^ 53)

include fb in
theorem value_div : a.value / b.value = ((a.significand * 2 ^ 53 : ℕ) : ℚ) / b.significand
    * 2 ^ (a.exponent - b.exponent - 53) := by
  have bpos : (0 : ℚ) < b.significand := by exact_mod_cast (by omega : 0 < b.significand)
  have epos := two_zpow_pos b.exponent
  have unit : (2 : ℚ) ^ (53 : ℤ) = 2 ^ 53 := zpow_natCast 2 53
  rw [Magnitude.value, Magnitude.value, zpow_sub₀ (by norm_num), zpow_sub₀ (by norm_num), unit, Nat.cast_mul,
    Nat.cast_pow, Nat.cast_ofNat]
  field_simp

include na fb in
/-- The exponents are not so far apart that the quotient would be cut short. -/
theorem exponent_div (low : (2 : ℚ) ^ (-1000 : ℤ) ≤ a.value / b.value) :
    -1074 ≤ a.exponent - b.exponent - 53 := by
  have bpos : (0 : ℚ) < b.significand := by exact_mod_cast (by omega : 0 < b.significand)
  have epos := two_zpow_pos b.exponent
  have ratio : (a.significand : ℚ) < 2 * b.significand := by
    exact_mod_cast (by omega : a.significand < 2 * b.significand)
  have less : (2 : ℚ) ^ (-1000 : ℤ) < 2 ^ (a.exponent - b.exponent + 1) := by
    refine low.trans_lt ?_
    rw [two_zpow_succ, zpow_sub₀ (by norm_num), Magnitude.value, Magnitude.value, div_lt_iff₀ (by positivity)]
    calc (a.significand : ℚ) * 2 ^ a.exponent < 2 * b.significand * 2 ^ a.exponent :=
          mul_lt_mul_of_pos_right ratio (two_zpow_pos _)
      _ = 2 * (2 ^ a.exponent / 2 ^ b.exponent) * (b.significand * 2 ^ b.exponent) := by field_simp
  have apart : -1000 < a.exponent - b.exponent + 1 := (zpow_lt_zpow_iff_right₀ (by norm_num)).mp less
  omega

include fa na fb nb in
theorem divCore_eq (near : -1074 ≤ a.exponent - b.exponent - 53) :
    divCore .binary64 a.significand a.exponent b.significand b.exponent
      = (a.significand * 2 ^ 53 / b.significand, a.exponent - b.exponent - 53,
        accuracyOfFraction (a.significand * 2 ^ 53 % b.significand) b.significand) := by
  have la : a.significand.log2 = 52 := (Nat.log2_eq_iff (by omega)).mpr ⟨fa, na⟩
  have lb : b.significand.log2 = 52 := (Nat.log2_eq_iff (by omega)).mpr ⟨fb, nb⟩
  have target : min (a.exponent - b.exponent) (Format.binary64.targetExponent
      (totalExponent a.significand a.exponent - totalExponent b.significand b.exponent))
      = a.exponent - b.exponent - 53 := by
    rw [targetExponent_eq, totalExponent, totalExponent, la, lb]
    omega
  have shift : (a.exponent - b.exponent - (a.exponent - b.exponent - 53)).toNat = 53 := by omega
  unfold divCore
  rw [target]
  dsimp only
  rw [shift, Nat.shiftLeft_eq]

end Division

theorem holds_div (hx : Holds x a) (hy : Holds y b) (low : (2 : ℚ) ^ (-1000 : ℤ) ≤ a.value / b.value)
    (high : a.value / b.value < (2 : ℚ) ^ (1000 : ℤ)) :
    ∃ m, Holds (x / y) m ∧ Rounds (a.value / b.value) m := by
  have fx : 2 ^ 52 ≤ a.significand := hx.2
  have fy : 2 ^ 52 ≤ b.significand := hy.2
  have nx : a.significand < 2 ^ 53 := hx.1.fits.narrow
  have ny : b.significand < 2 ^ 53 := hy.1.fits.narrow
  have core := divCore_eq fx nx fy ny (exponent_div nx fy low)
  have full : 2 ^ 52 ≤ a.significand * 2 ^ 53 / b.significand := by
    rw [Nat.le_div_iff_mul_le hy.1.pos]
    exact Nat.mul_le_mul fx ny.le
  rw [value_div fy] at low high ⊢
  obtain ⟨m, mpos, fits, wide, rounds, result⟩ :=
    roundWithAccuracy_eq .positive hy.1.pos (extended_fraction _ hy.1.pos) full low high
  refine ⟨m, ⟨stands_of_pack fits mpos ?_, wide⟩, rounds⟩
  change Float.Model.pack (UnpackedFloat.div .binary64 x.toModel.unpack y.toModel.unpack) = _
  rw [hx.1.unpack, hy.1.unpack]
  unfold UnpackedFloat.div
  dsimp only
  rw [core]
  exact congrArg Float.Model.pack result

theorem round_natural {n : ℕ} (pos : 0 < n) (narrow : n < 2 ^ 53) :
    UnpackedFloat.round .binary64 .positive n 0
      = roundWithAccuracy .binary64 .positive (n * 2 ^ (52 - n.log2)) ((n.log2 : ℤ) - 52) .exact := by
  have log : n.log2 < 53 := (Nat.log2_lt pos.ne').mpr narrow
  have shift : ((0 : ℤ) - max ((n.log2 : ℤ) + 0 - 52) (-1074)).toNat = 52 - n.log2 := by omega
  have exponent : (0 : ℤ) - (52 - n.log2 : ℕ) = (n.log2 : ℤ) - 52 := by omega
  unfold UnpackedFloat.round UnpackedFloat.decreaseExponent
  rw [targetExponent_totalExponent]
  dsimp only
  rw [shift, exponent, Nat.shiftLeft_eq]

theorem holds_toFloat {n : ℕ} (pos : 0 < n) (narrow : n < 2 ^ 53) :
    ∃ m, Holds (UInt64.ofNat n).toFloat m ∧ m.value = n := by
  have log : n.log2 < 53 := (Nat.log2_lt pos.ne').mpr narrow
  have value : (n : ℚ) = ((n * 2 ^ (52 - n.log2) : ℕ) : ℚ) / (1 : ℕ) * 2 ^ ((n.log2 : ℤ) - 52) := by
    rw [show (n.log2 : ℤ) - 52 = -((52 - n.log2 : ℕ) : ℤ) by omega, zpow_neg, zpow_natCast]
    push_cast
    field_simp
  have full : 2 ^ 52 ≤ n * 2 ^ (52 - n.log2) / 1 := by
    have := Nat.mul_le_mul_right (2 ^ (52 - n.log2)) (Nat.log2_self_le pos.ne')
    rwa [← pow_add, show n.log2 + (52 - n.log2) = 52 by omega, ← Nat.div_one (n * _)] at this
  have low : (2 : ℚ) ^ (-1000 : ℤ) ≤ n := by
    have : (1 : ℚ) ≤ n := by exact_mod_cast pos
    exact (zpow_le_one_of_nonpos₀ (by norm_num) (by norm_num)).trans this
  have high : (n : ℚ) < 2 ^ (1000 : ℤ) := by
    have : (n : ℚ) < 2 ^ (53 : ℤ) := by exact_mod_cast narrow
    exact this.trans (zpow_lt_zpow_right₀ (by norm_num) (by norm_num))
  rw [value] at low high
  obtain ⟨m, mpos, fits, wide, rounds, result⟩ :=
    roundWithAccuracy_eq .positive Nat.one_pos (by rw [Nat.div_one]; exact extended_one _) full low high
  rw [← value] at rounds
  refine ⟨m, ⟨stands_of_pack fits mpos ?_, wide⟩, rounds.exact narrow (e := 0) (by rw [zpow_zero, mul_one])⟩
  have natural : (UInt64.ofNat n).toNat = n := by
    rw [UInt64.toNat_ofNat']
    omega
  change Float.Model.pack (UnpackedFloat.normalize .binary64 ((UInt64.ofNat n).toNat : ℤ) 0 .positive) = _
  rw [natural]
  unfold UnpackedFloat.normalize
  rw [Int.compare_eq_gt.mpr (by omega)]
  dsimp only
  rw [Int.toNat_natCast, round_natural pos narrow]
  rw [Nat.div_one] at result
  exact congrArg Float.Model.pack result

/-! ### Quotients -/

/-- Values between these are far from the ends of double precision. -/
theorem within_double {v : ℚ} (low : 1 / 2 ^ 250 ≤ v) (high : v ≤ 2 ^ 300) :
    (2 : ℚ) ^ (-1000 : ℤ) ≤ v ∧ v < (2 : ℚ) ^ (1000 : ℤ) := by
  constructor
  · refine le_trans ?_ low
    rw [one_div, ← zpow_natCast, ← zpow_neg]
    exact zpow_le_zpow_right₀ (by norm_num) (by norm_num)
  · refine high.trans_lt ?_
    rw [← zpow_natCast]
    exact zpow_lt_zpow_right₀ (by norm_num) (by norm_num)

/-- The nearest double of a quotient is its rounding to full width. -/
theorem nearest_double {r : Ratio} (den : 0 < r.den) (low : (2 : ℚ) ^ (-1000 : ℤ) ≤ r.value)
    (high : r.value < (2 : ℚ) ^ (1000 : ℤ)) :
    ∃ m, double.nearest r = some m ∧ double.Fits m ∧ 2 ^ 52 ≤ m.significand ∧ Rounds r.value m := by
  have num : 0 < r.num := by
    rcases Nat.eq_zero_or_pos r.num with zero | num
    · rw [Ratio.value, zero, Nat.cast_zero, zero_div] at low
      have := two_zpow_pos (-1000)
      linarith
    · exact num
  obtain ⟨t, _, above, below⟩ := Binary.Format.exists_unit double (by decide) num den
  change 2 ^ 52 * (2 : ℚ) ^ t ≤ r.value at above
  change r.value < 2 ^ 53 * (2 : ℚ) ^ t at below
  have lowest : -1074 ≤ t := by
    have less : 2 ^ 52 * (2 : ℚ) ^ (-1074 : ℤ) < 2 ^ (52 + 1) * 2 ^ t := by
      refine lt_of_le_of_lt ?_ (low.trans_lt below)
      rw [← zpow_natCast, ← zpow_add₀ (by norm_num)]
      exact zpow_le_zpow_right₀ (by norm_num) (by norm_num)
    exact Binary.Format.le_of_scaled less
  have highest : t ≤ 970 := by
    have less : 2 ^ 52 * (2 : ℚ) ^ t < 2 ^ (52 + 1) * 2 ^ (970 : ℤ) := by
      refine lt_of_lt_of_le (above.trans_lt high) ?_
      rw [← zpow_natCast, ← zpow_add₀ (by norm_num)]
      exact zpow_le_zpow_right₀ (by norm_num) (by norm_num)
    exact Binary.Format.le_of_scaled less
  obtain ⟨m, nearest, fits, full, multiple, near⟩ :=
    Binary.Format.nearest_of_full (f := double) rfl den above below lowest (by change t < 971; omega)
  exact ⟨m, nearest, fits, full, t, _, above, below, multiple, near⟩

theorem holds_ofRatio {r : Ratio} (den : 0 < r.den) (low : (2 : ℚ) ^ (-1000 : ℤ) ≤ r.value)
    (high : r.value < (2 : ℚ) ^ (1000 : ℤ)) : ∃ m, Holds (ofRatio false r) m ∧ Rounds r.value m := by
  obtain ⟨m, nearest, fits, full, rounds⟩ := nearest_double den low high
  exact ⟨m, ⟨stands_ofRatio nearest fits (by omega) false, full⟩, rounds⟩

end Toolpath.Double

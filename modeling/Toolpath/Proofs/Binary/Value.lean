import Mathlib
import Toolpath.Binary.Format

/-!
# Exact values

Quotients and magnitudes stand for rational numbers. In these terms, `Format.readsBack` asks whether a number
lies between the two ends of a magnitude, and `nearest_of_reads` says that the magnitude is then what the
number rounds to.
-/

namespace Toolpath.Binary

theorem zpow_eq_div {b : ℚ} (nonzero : b ≠ 0) (e : ℤ) : b ^ e = b ^ e.toNat / b ^ (-e).toNat := by
  rw [eq_div_iff (pow_ne_zero _ nonzero), ← zpow_natCast, ← zpow_natCast, ← zpow_add₀ nonzero]
  congr 1
  omega

theorem two_zpow_pos (e : ℤ) : (0 : ℚ) < 2 ^ e := zpow_pos (by norm_num) e

theorem two_zpow_succ (e : ℤ) : (2 : ℚ) ^ (e + 1) = 2 * 2 ^ e := by
  rw [zpow_add_one₀ (by norm_num), mul_comm]

namespace Ratio

def value (r : Ratio) : ℚ := r.num / r.den

variable {a b r : Ratio}

theorem below_iff (ha : 0 < a.den) (hb : 0 < b.den) : a.below b = true ↔ a.value < b.value := by
  have pa : (0 : ℚ) < a.den := by exact_mod_cast ha
  have pb : (0 : ℚ) < b.den := by exact_mod_cast hb
  simp only [below, value, decide_eq_true_eq, div_lt_div_iff₀ pa pb]
  exact_mod_cast Iff.rfl

theorem same_iff (ha : 0 < a.den) (hb : 0 < b.den) : a.same b = true ↔ a.value = b.value := by
  have pa : (a.den : ℚ) ≠ 0 := by exact_mod_cast ha.ne'
  have pb : (b.den : ℚ) ≠ 0 := by exact_mod_cast hb.ne'
  simp only [same, value, beq_iff_eq, div_eq_div_iff pa pb]
  exact_mod_cast Iff.rfl

theorem shift_den_pos (pos : 0 < r.den) (e : ℤ) : 0 < (r.shift e).den := by
  simp only [shift, Nat.shiftLeft_eq]
  positivity

theorem value_shift (r : Ratio) (e : ℤ) : (r.shift e).value = r.value / 2 ^ e := by
  simp only [value, shift, Nat.shiftLeft_eq]
  rw [zpow_eq_div (by norm_num) e]
  push_cast
  have := pow_pos (show (0 : ℚ) < 2 by norm_num) e.toNat
  have := pow_pos (show (0 : ℚ) < 2 by norm_num) (-e).toNat
  field_simp

/-- The number within a half of the quotient is the one it rounds to, where a number a half away has to be
even. -/
theorem round_eq_of_bounds (pos : 0 < r.den) {n : ℕ} (low : 2 * n * r.den ≤ 2 * r.num + r.den)
    (high : 2 * r.num ≤ (2 * n + 1) * r.den)
    (inside : n % 2 = 1 → 2 * n * r.den ≠ 2 * r.num + r.den ∧ 2 * r.num ≠ (2 * n + 1) * r.den) :
    r.round = n := by
  have parts : r.den * (r.num / r.den) + r.num % r.den = r.num := Nat.div_add_mod _ _
  have less : r.num % r.den < r.den := Nat.mod_lt _ pos
  unfold round
  dsimp only
  generalize r.num / r.den = q at *
  generalize r.num % r.den = rest at *
  have near : n = q ∨ n = q + 1 := by
    have notBelow : ¬ n < q := by
      intro small
      have : r.den * (2 * n + 2) ≤ r.den * (2 * q) := Nat.mul_le_mul_left _ (by omega)
      nlinarith
    have notAbove : ¬ q + 1 < n := by
      intro large
      have : r.den * (2 * q + 4) ≤ r.den * (2 * n) := Nat.mul_le_mul_left _ (by omega)
      nlinarith
    omega
  rcases near with rfl | rfl
  · have : 2 * rest ≤ r.den := by nlinarith
    have : 2 * rest = r.den → n % 2 = 0 := by
      intro half
      by_contra odd
      exact (inside (by omega)).2 (by nlinarith)
    split_ifs <;> omega
  · have : r.den ≤ 2 * rest := by nlinarith
    have : 2 * rest = r.den → (q + 1) % 2 = 0 := by
      intro half
      by_contra odd
      exact (inside (by omega)).1 (by nlinarith)
    split_ifs <;> omega

theorem round_near (pos : 0 < r.den) : |(r.round : ℚ) - r.value| ≤ 1 / 2 := by
  have p : (0 : ℚ) < r.den := by exact_mod_cast pos
  have parts : r.den * (r.num / r.den) + r.num % r.den = r.num := Nat.div_add_mod _ _
  have rest := Nat.mod_lt r.num pos
  have near : 2 * (r.den * r.round) ≤ 2 * r.num + r.den ∧ 2 * r.num ≤ 2 * (r.den * r.round) + r.den := by
    unfold round
    dsimp only
    generalize r.num / r.den = q at *
    generalize r.num % r.den = rest at *
    have next : r.den * (q + 1) = r.den * q + r.den := Nat.mul_succ _ _
    split_ifs <;> omega
  have low : (2 : ℚ) * (r.den * r.round) ≤ 2 * r.num + r.den := by exact_mod_cast near.1
  have high : (2 : ℚ) * r.num ≤ 2 * (r.den * r.round) + r.den := by exact_mod_cast near.2
  have split : (r.round : ℚ) - r.value = (r.den * r.round - r.num) / r.den := by
    rw [value]
    field_simp
  rw [split, abs_div, abs_of_pos p, div_le_iff₀ p, abs_le]
  constructor <;> linarith

theorem round_eq (pos : 0 < r.den) {n : ℕ} (low : (n : ℚ) - 1 / 2 ≤ r.value) (high : r.value ≤ n + 1 / 2)
    (inside : n % 2 = 1 → (n : ℚ) - 1 / 2 ≠ r.value ∧ r.value ≠ n + 1 / 2) : r.round = n := by
  have p : (0 : ℚ) < r.den := by exact_mod_cast pos
  have scaled : r.value * r.den = r.num := div_mul_cancel₀ _ p.ne'
  refine round_eq_of_bounds pos ?_ ?_ ?_
  · have := mul_le_mul_of_nonneg_right low p.le
    have : (2 : ℚ) * n * r.den ≤ 2 * r.num + r.den := by rw [scaled] at this; linarith
    exact_mod_cast this
  · have := mul_le_mul_of_nonneg_right high p.le
    have : (2 : ℚ) * r.num ≤ (2 * n + 1) * r.den := by rw [scaled] at this; linarith
    exact_mod_cast this
  · intro odd
    obtain ⟨notLow, notHigh⟩ := inside odd
    constructor
    · intro same
      have same : (2 : ℚ) * n * r.den = 2 * r.num + r.den := by exact_mod_cast same
      exact notLow (mul_right_cancel₀ p.ne' (by rw [scaled]; linarith))
    · intro same
      have same : (2 : ℚ) * r.num = (2 * n + 1) * r.den := by exact_mod_cast same
      exact notHigh (mul_right_cancel₀ p.ne' (by rw [scaled]; linarith))

end Ratio

namespace Magnitude

def value (m : Magnitude) : ℚ := m.significand * 2 ^ m.exponent

theorem ratio_den_pos (m : Magnitude) : 0 < m.ratio.den := by
  simp only [ratio, Nat.shiftLeft_eq]
  positivity

theorem value_ratio (m : Magnitude) : m.ratio.value = m.value := by
  simp only [Ratio.value, ratio, value, Nat.shiftLeft_eq]
  rw [zpow_eq_div (by norm_num) m.exponent]
  push_cast
  ring

end Magnitude

namespace Format

variable {f : Format} {m : Magnitude} {r : Ratio} {x y : ℚ}

/-- The magnitudes that a format lays out: the significand is full, unless the exponent is the least. -/
structure Fits (f : Format) (m : Magnitude) : Prop where
  narrow : m.significand < 2 ^ f.precision
  full : 2 ^ (f.precision - 1) ≤ m.significand ∨ m.exponent = f.lowest
  lowest : f.lowest ≤ m.exponent
  highest : m.exponent ≤ f.highest

/-- Halfway to the lower neighbour. -/
def lowEnd (f : Format) (m : Magnitude) : ℚ :=
  (m.significand - if f.narrowBelow m then 1 / 4 else 1 / 2) * 2 ^ m.exponent

/-- Halfway to the upper neighbour. -/
def highEnd (m : Magnitude) : ℚ := (m.significand + 1 / 2) * 2 ^ m.exponent

/-- A number between the two ends of a magnitude, or on one of them if the significand is even. -/
structure Reads (f : Format) (m : Magnitude) (x : ℚ) : Prop where
  low : f.lowEnd m ≤ x
  high : x ≤ highEnd m
  inside : m.significand % 2 = 1 → f.lowEnd m ≠ x ∧ x ≠ highEnd m

theorem Reads.between {a b : ℚ} (ra : f.Reads m a) (rb : f.Reads m b) (low : a ≤ x) (high : x ≤ b) :
    f.Reads m x := by
  refine ⟨ra.low.trans low, high.trans rb.high, fun odd => ⟨?_, ?_⟩⟩
  · rintro rfl
    exact (ra.inside odd).1 (le_antisymm ra.low low)
  · rintro rfl
    exact (rb.inside odd).2 (le_antisymm rb.high high)

theorem lowEnd_lt (f : Format) (m : Magnitude) : f.lowEnd m < m.value := by
  refine mul_lt_mul_of_pos_right ?_ (two_zpow_pos _)
  split <;> linarith

theorem lt_highEnd (m : Magnitude) : m.value < highEnd m :=
  mul_lt_mul_of_pos_right (by linarith) (two_zpow_pos _)

theorem reads_value (f : Format) (m : Magnitude) : f.Reads m m.value :=
  ⟨(lowEnd_lt f m).le, (lt_highEnd m).le, fun _ => ⟨(lowEnd_lt f m).ne, (lt_highEnd m).ne⟩⟩

theorem lowEnd_pos (f : Format) (pos : 0 < m.significand) : 0 < f.lowEnd m := by
  have : (1 : ℚ) ≤ m.significand := by exact_mod_cast pos
  refine mul_pos ?_ (two_zpow_pos _)
  split <;> linarith

theorem Reads.pos (reads : f.Reads m x) (pos : 0 < m.significand) : 0 < x :=
  (lowEnd_pos f pos).trans_le reads.low

theorem readsBack_iff (pos : 0 < m.significand) (den : 0 < r.den) :
    f.readsBack m r = true ↔ f.Reads m r.value := by
  have quarter : (2 : ℚ) ^ (m.exponent - 2) = 2 ^ m.exponent / 4 := by
    rw [zpow_sub₀ (by norm_num)]
    norm_num
  have low : (Magnitude.ratio ⟨4 * m.significand - (if f.narrowBelow m then 1 else 2), m.exponent - 2⟩).value
      = f.lowEnd m := by
    rw [Magnitude.value_ratio, Magnitude.value, lowEnd, quarter]
    dsimp only
    split
    · rw [Nat.cast_sub (by omega)]
      push_cast
      ring
    · rw [Nat.cast_sub (by omega)]
      push_cast
      ring
  have high : (Magnitude.ratio ⟨4 * m.significand + 2, m.exponent - 2⟩).value = highEnd m := by
    rw [Magnitude.value_ratio, Magnitude.value, highEnd, quarter]
    push_cast
    ring
  unfold readsBack
  simp only [Bool.and_eq_true, Bool.or_eq_true, beq_iff_eq,
    Ratio.below_iff (Magnitude.ratio_den_pos _) den, Ratio.below_iff den (Magnitude.ratio_den_pos _),
    Ratio.same_iff (Magnitude.ratio_den_pos _) den, Ratio.same_iff den (Magnitude.ratio_den_pos _), low, high]
  constructor
  · rintro ⟨above, below⟩
    refine ⟨?_, ?_, fun odd => ⟨?_, ?_⟩⟩
    · rcases above with strict | ⟨_, same⟩
      · exact strict.le
      · exact same.le
    · rcases below with strict | ⟨_, same⟩
      · exact strict.le
      · exact same.le
    · rcases above with strict | ⟨even, _⟩
      · exact strict.ne
      · omega
    · rcases below with strict | ⟨even, _⟩
      · exact strict.ne
      · omega
  · intro reads
    rcases Nat.mod_two_eq_zero_or_one m.significand with even | odd
    · exact ⟨reads.low.lt_or_eq.imp_right fun same => ⟨even, same⟩,
        reads.high.lt_or_eq.imp_right fun same => ⟨even, same⟩⟩
    · obtain ⟨notLow, notHigh⟩ := reads.inside odd
      exact ⟨Or.inl (lt_of_le_of_ne reads.low notLow), Or.inl (lt_of_le_of_ne reads.high notHigh)⟩

/-! ### Rounding to a format -/

/-- The exponent at which a quotient has a full significand, apart from the least exponent. -/
theorem exists_unit (f : Format) (wide : 0 < f.precision) (num : 0 < r.num) (den : 0 < r.den) :
    ∃ e : ℤ, f.unit r = max e f.lowest ∧ 2 ^ (f.precision - 1) * (2 : ℚ) ^ e ≤ r.value ∧
      r.value < 2 ^ f.precision * (2 : ℚ) ^ e := by
  obtain ⟨p, precision⟩ : ∃ p, f.precision = p + 1 := ⟨f.precision - 1, by omega⟩
  have dpos : (0 : ℚ) < r.den := by exact_mod_cast den
  have numLow : (2 : ℚ) ^ r.num.log2 ≤ r.num := by exact_mod_cast Nat.log2_self_le num.ne'
  have numHigh : (r.num : ℚ) < 2 * 2 ^ r.num.log2 := by
    have := Nat.lt_log2_self (n := r.num)
    rw [pow_succ, mul_comm] at this
    exact_mod_cast this
  have denLow : (2 : ℚ) ^ r.den.log2 ≤ r.den := by exact_mod_cast Nat.log2_self_le den.ne'
  have denHigh : (r.den : ℚ) < 2 * 2 ^ r.den.log2 := by
    have := Nat.lt_log2_self (n := r.den)
    rw [pow_succ, mul_comm] at this
    exact_mod_cast this
  let guess : ℤ := (r.num.log2 : ℤ) - r.den.log2 - f.precision
  have scale : (2 : ℚ) ^ guess = 2 ^ r.num.log2 / 2 ^ r.den.log2 / (2 * 2 ^ p) := by
    simp only [guess, precision]
    rw [zpow_sub₀ (by norm_num), zpow_sub₀ (by norm_num), zpow_natCast, zpow_natCast, zpow_natCast, pow_succ]
    ring
  have ppos := pow_pos (show (0 : ℚ) < 2 by norm_num) p
  have npos := pow_pos (show (0 : ℚ) < 2 by norm_num) r.num.log2
  have epos := pow_pos (show (0 : ℚ) < 2 by norm_num) r.den.log2
  have gpos := two_zpow_pos guess
  have low : 2 ^ p * (2 : ℚ) ^ guess ≤ r.value := by
    rw [scale, Ratio.value, le_div_iff₀ dpos]
    calc 2 ^ p * (2 ^ r.num.log2 / 2 ^ r.den.log2 / (2 * 2 ^ p)) * (r.den : ℚ)
        = 2 ^ r.num.log2 * (r.den / (2 * 2 ^ r.den.log2)) := by field_simp
      _ ≤ 2 ^ r.num.log2 * 1 := by
          refine mul_le_mul_of_nonneg_left ?_ npos.le
          rw [div_le_one (by positivity)]
          exact denHigh.le
      _ ≤ r.num := by rw [mul_one]; exact numLow
  have high : r.value < 2 ^ f.precision * (2 * (2 : ℚ) ^ guess) := by
    rw [scale, Ratio.value, div_lt_iff₀ dpos, precision, pow_succ]
    calc (r.num : ℚ) < 2 * 2 ^ r.num.log2 * 1 := by rw [mul_one]; exact numHigh
      _ ≤ 2 * 2 ^ r.num.log2 * (r.den / 2 ^ r.den.log2) := by
          refine mul_le_mul_of_nonneg_left ?_ (by positivity)
          rw [le_div_iff₀ epos, one_mul]
          exact denLow
      _ = 2 ^ p * 2 * (2 * (2 ^ r.num.log2 / 2 ^ r.den.log2 / (2 * 2 ^ p))) * r.den := by field_simp
  have wideIff : ((r.shift guess).den <<< f.precision ≤ (r.shift guess).num) ↔
      2 ^ f.precision * (2 : ℚ) ^ guess ≤ r.value := by
    have shifted := Ratio.value_shift r guess
    have spos : (0 : ℚ) < (r.shift guess).den := by exact_mod_cast Ratio.shift_den_pos den guess
    rw [← le_div_iff₀ gpos, ← shifted, Ratio.value, le_div_iff₀ spos, Nat.shiftLeft_eq, mul_comm]
    exact_mod_cast Iff.rfl
  by_cases full : 2 ^ f.precision * (2 : ℚ) ^ guess ≤ r.value
  · refine ⟨guess + 1, ?_, ?_, ?_⟩
    · simp only [unit]
      rw [if_pos (wideIff.mpr full)]
    · rw [two_zpow_succ, precision, Nat.add_sub_cancel]
      rw [precision, pow_succ] at full
      linarith
    · rw [two_zpow_succ]
      exact high
  · refine ⟨guess, ?_, ?_, not_le.mp full⟩
    · simp only [unit]
      rw [if_neg (mt wideIff.mp full)]
    · rw [precision, Nat.add_sub_cancel]
      exact low

theorem le_of_scaled {k : ℕ} {e t : ℤ} (less : 2 ^ k * (2 : ℚ) ^ e < 2 ^ (k + 1) * 2 ^ t) : e ≤ t := by
  rw [pow_succ, mul_assoc, ← two_zpow_succ] at less
  have := (zpow_lt_zpow_iff_right₀ (by norm_num)).mp (lt_of_mul_lt_mul_left less (by positivity))
  omega

/-- The exponent of a quotient that is in full width at it, or below full width at the least one. -/
theorem unit_eq {k : ℕ} {t : ℤ} (precision : f.precision = k + 1) (num : 0 < r.num) (den : 0 < r.den)
    (high : r.value < 2 ^ (k + 1) * 2 ^ t) (low : 2 ^ k * (2 : ℚ) ^ t ≤ r.value ∨ t = f.lowest)
    (lowest : f.lowest ≤ t) : f.unit r = t := by
  obtain ⟨e, unit, above, below⟩ := exists_unit f (by omega) num den
  rw [precision, Nat.add_sub_cancel] at above
  rw [precision] at below
  have : e ≤ t := le_of_scaled (above.trans_lt high)
  rcases low with full | rfl
  · have : t ≤ e := le_of_scaled (full.trans_lt below)
    omega
  · omega

theorem half_le_gap (f : Format) (m : Magnitude) : (m.significand - 1 / 2) * 2 ^ m.exponent ≤ f.lowEnd m := by
  refine mul_le_mul_of_nonneg_right ?_ (two_zpow_pos _).le
  split <;> linarith

theorem Reads.round_shift (reads : f.Reads m r.value) (den : 0 < r.den) :
    (r.shift m.exponent).round = m.significand := by
  have tpos := two_zpow_pos m.exponent
  have low := half_le_gap f m
  refine Ratio.round_eq (Ratio.shift_den_pos den _) ?_ ?_ fun odd => ⟨?_, ?_⟩
  · rw [Ratio.value_shift, le_div_iff₀ tpos]
    exact low.trans reads.low
  · rw [Ratio.value_shift, div_le_iff₀ tpos]
    exact reads.high
  · rw [Ratio.value_shift]
    intro same
    rw [eq_div_iff tpos.ne'] at same
    exact (reads.inside odd).1 (le_antisymm reads.low (same ▸ low))
  · rw [Ratio.value_shift]
    intro same
    rw [div_eq_iff tpos.ne'] at same
    exact (reads.inside odd).2 same

/-- Only the least full significand has numbers on its lower side that are not in full width at its
exponent. They round up to it from the exponent below. -/
theorem Reads.round_below {k : ℕ} (precision : f.precision = k + 1) (fits : f.Fits m)
    (reads : f.Reads m r.value) (den : 0 < r.den) (short : r.value < 2 ^ k * 2 ^ m.exponent)
    (above : m.exponent ≠ f.lowest) :
    m.significand = 2 ^ k ∧ (2 ^ (k + 1) - 1 / 2) * (2 : ℚ) ^ (m.exponent - 1) ≤ r.value ∧
      (r.shift (m.exponent - 1)).round = 2 ^ (k + 1) := by
  have tpos := two_zpow_pos (m.exponent - 1)
  have double : (2 : ℚ) ^ m.exponent = 2 * 2 ^ (m.exponent - 1) := by
    rw [← two_zpow_succ, sub_add_cancel]
  have full : 2 ^ k ≤ m.significand := by
    have := fits.full
    rw [precision, Nat.add_sub_cancel] at this
    exact this.resolve_right above
  have least : m.significand = 2 ^ k := by
    by_contra larger
    have next : (2 : ℚ) ^ k + 1 ≤ m.significand := by exact_mod_cast (by omega : 2 ^ k + 1 ≤ m.significand)
    have := (mul_le_mul_of_nonneg_right (show (2 : ℚ) ^ k ≤ m.significand - 1 / 2 by linarith)
      (two_zpow_pos m.exponent).le).trans ((half_le_gap f m).trans reads.low)
    linarith
  have narrow : f.narrowBelow m = true := by
    have := fits.lowest
    simp only [narrowBelow, precision, Nat.add_sub_cancel, Nat.shiftLeft_eq, one_mul, least, Bool.and_eq_true,
      beq_self_eq_true, decide_eq_true_eq, true_and]
    omega
  have low : (2 ^ (k + 1) - 1 / 2) * (2 : ℚ) ^ (m.exponent - 1) ≤ r.value := by
    have := reads.low
    rw [lowEnd, narrow, if_pos rfl, least, double] at this
    push_cast at this
    rw [pow_succ]
    linarith
  refine ⟨least, low, Ratio.round_eq (Ratio.shift_den_pos den _) ?_ ?_ ?_⟩
  · rw [Ratio.value_shift, le_div_iff₀ tpos]
    push_cast
    exact low
  · rw [Ratio.value_shift, div_le_iff₀ tpos]
    rw [double] at short
    push_cast
    rw [pow_succ]
    linarith
  · intro odd
    rw [pow_succ] at odd
    omega

/-- A quotient between the two ends of a magnitude rounds to it. -/
theorem nearest_of_reads (wide : 0 < f.precision) (fits : f.Fits m) (pos : 0 < m.significand) (den : 0 < r.den)
    (reads : f.Reads m r.value) : f.nearest r = some m := by
  have rpos : 0 < r.value := reads.pos pos
  have num : 0 < r.num := by
    rcases Nat.eq_zero_or_pos r.num with zero | num
    · rw [Ratio.value, zero, Nat.cast_zero, zero_div] at rpos
      exact absurd rpos (lt_irrefl 0)
    · exact num
  obtain ⟨k, precision⟩ : ∃ k, f.precision = k + 1 := ⟨f.precision - 1, by omega⟩
  have narrow := fits.narrow
  rw [precision] at narrow
  have highest := fits.highest
  have below : r.value < 2 ^ (k + 1) * 2 ^ m.exponent := by
    have next : (m.significand : ℚ) + 1 ≤ 2 ^ (k + 1) := by exact_mod_cast narrow
    exact reads.high.trans_lt (mul_lt_mul_of_pos_right (by linarith) (two_zpow_pos _))
  unfold nearest
  rw [if_neg num.ne']
  by_cases short : r.value < 2 ^ k * 2 ^ m.exponent ∧ m.exponent ≠ f.lowest
  · obtain ⟨least, low, round⟩ := reads.round_below precision fits den short.1 short.2
    have tpos := two_zpow_pos (m.exponent - 1)
    have unit : f.unit r = m.exponent - 1 := by
      refine unit_eq precision num den ?_ (Or.inl (le_trans ?_ low)) ?_
      · have := short.1
        rwa [show m.exponent = m.exponent - 1 + 1 by omega, two_zpow_succ, ← mul_assoc, ← pow_succ] at this
      · refine mul_le_mul_of_nonneg_right ?_ tpos.le
        have := one_le_pow₀ (show (1 : ℚ) ≤ 2 by norm_num) (n := k)
        rw [pow_succ]
        linarith
      · have := fits.lowest
        omega
    simp only [unit, round, precision, Nat.shiftLeft_eq, one_mul, ↓reduceIte, Nat.add_sub_cancel, sub_add_cancel,
      ← least, not_lt.mpr highest]
  · have unit : f.unit r = m.exponent := by
      refine unit_eq precision num den below ?_ fits.lowest
      by_contra neither
      exact short ⟨not_le.mp (not_or.mp neither).1, (not_or.mp neither).2⟩
    simp only [unit, reads.round_shift den, precision, Nat.shiftLeft_eq, one_mul, narrow.ne, ↓reduceIte,
      not_lt.mpr highest]

/-- A quotient within the exponents of a format rounds to a multiple of its unit, at most half a unit away. -/
theorem nearest_of_full {k : ℕ} {t : ℤ} (precision : f.precision = k + 1) (den : 0 < r.den)
    (low : 2 ^ k * (2 : ℚ) ^ t ≤ r.value) (high : r.value < 2 ^ (k + 1) * 2 ^ t) (lowest : f.lowest ≤ t)
    (highest : t < f.highest) :
    ∃ m, f.nearest r = some m ∧ f.Fits m ∧ 2 ^ k ≤ m.significand ∧ m.value = (r.shift t).round * 2 ^ t ∧
      |m.value - r.value| ≤ 2 ^ t / 2 := by
  have tpos := two_zpow_pos t
  have num : 0 < r.num := by
    rcases Nat.eq_zero_or_pos r.num with zero | num
    · rw [Ratio.value, zero, Nat.cast_zero, zero_div] at low
      have : (0 : ℚ) < 2 ^ k * 2 ^ t := by positivity
      linarith
    · exact num
  have unit := unit_eq precision num den high (Or.inl low) lowest
  have near := Ratio.round_near (Ratio.shift_den_pos den t)
  rw [Ratio.value_shift] at near
  have from_near := abs_le.mp near
  have scaledLow : (2 : ℚ) ^ k ≤ r.value / 2 ^ t := (le_div_iff₀ tpos).mpr low
  have scaledHigh : r.value / 2 ^ t < 2 ^ (k + 1) := (div_lt_iff₀ tpos).mpr high
  have value : |((r.shift t).round : ℚ) * 2 ^ t - r.value| ≤ 2 ^ t / 2 := by
    have := mul_le_mul_of_nonneg_right near tpos.le
    rwa [← abs_of_pos tpos, ← abs_mul, abs_of_pos tpos, sub_mul, div_mul_cancel₀ _ tpos.ne', one_div_mul_eq_div]
      at this
  have atLeast : 2 ^ k ≤ (r.shift t).round := by
    have : (2 ^ k : ℚ) < (r.shift t).round + 1 := by linarith
    exact Nat.lt_succ_iff.mp (by exact_mod_cast this)
  have atMost : (r.shift t).round ≤ 2 ^ (k + 1) := by
    have : ((r.shift t).round : ℚ) < 2 ^ (k + 1) + 1 := by linarith
    exact Nat.lt_succ_iff.mp (by exact_mod_cast this)
  have width : (1 : ℕ) <<< f.precision = 2 ^ (k + 1) := by rw [precision, Nat.shiftLeft_eq, one_mul]
  have kpos := Nat.two_pow_pos k
  have half : (1 : ℕ) <<< (f.precision - 1) = 2 ^ k := by
    rw [precision, Nat.add_sub_cancel, Nat.shiftLeft_eq, one_mul]
  unfold nearest
  rw [if_neg num.ne', unit]
  dsimp only
  rw [width, half]
  by_cases carry : (r.shift t).round = 2 ^ (k + 1)
  · have same : (2 ^ k : ℕ) * (2 : ℚ) ^ (t + 1) = (r.shift t).round * 2 ^ t := by
      rw [carry, two_zpow_succ, pow_succ]
      push_cast
      ring
    rw [if_pos carry, if_neg (by dsimp only; omega)]
    refine ⟨_, rfl, ⟨?_, Or.inl ?_, ?_, ?_⟩, le_refl _, same, ?_⟩
    · rw [precision, pow_succ]
      dsimp only
      omega
    · rw [precision, Nat.add_sub_cancel]
    · dsimp only
      omega
    · dsimp only
      omega
    · rw [Magnitude.value, same]
      exact value
  · rw [if_neg carry, if_neg (by dsimp only; omega)]
    refine ⟨_, rfl, ⟨?_, Or.inl ?_, lowest, highest.le⟩, atLeast, rfl, value⟩
    · rw [precision]
      dsimp only
      omega
    · rw [precision, Nat.add_sub_cancel]
      exact atLeast

theorem Reads.near (reads : f.Reads m x) (pos : 0 < m.significand) : m.value / 2 ≤ x ∧ x ≤ 2 * m.value := by
  have one : (1 : ℚ) ≤ m.significand := by exact_mod_cast pos
  have tpos := two_zpow_pos m.exponent
  have low := (half_le_gap f m).trans reads.low
  have high := reads.high
  rw [highEnd] at high
  rw [Magnitude.value]
  have := mul_le_mul_of_nonneg_right one tpos.le
  constructor <;> linarith

/-- Numbers that round to a single-precision number other than zero are not far from one. -/
theorem Reads.single_range (reads : single.Reads m x) (fits : single.Fits m) (pos : 0 < m.significand) :
    1 / 2 ^ 150 ≤ x ∧ x ≤ 2 ^ 128 := by
  have narrow : m.significand < 2 ^ 24 := fits.narrow
  have lowest : -149 ≤ m.exponent := fits.lowest
  have highest : m.exponent ≤ 104 := fits.highest
  have one : (1 : ℚ) ≤ m.significand := by exact_mod_cast pos
  have wide : (m.significand : ℚ) + 1 ≤ 2 ^ 24 := by exact_mod_cast narrow
  constructor
  · calc (1 : ℚ) / 2 ^ 150 = (1 - 1 / 2) * 2 ^ (-149 : ℤ) := by norm_num
      _ ≤ (m.significand - 1 / 2) * 2 ^ m.exponent :=
          mul_le_mul (by linarith) (zpow_le_zpow_right₀ (by norm_num) lowest) (two_zpow_pos _).le (by linarith)
      _ ≤ single.lowEnd m := half_le_gap single m
      _ ≤ x := reads.low
  · calc x ≤ highEnd m := reads.high
      _ ≤ 2 ^ 24 * 2 ^ (104 : ℤ) :=
          mul_le_mul (by linarith) (zpow_le_zpow_right₀ (by norm_num) highest) (two_zpow_pos _).le (by positivity)
      _ = 2 ^ 128 := by norm_num

end Format

end Toolpath.Binary

import Mathlib
import Toolpath.Proofs.Binary.Value

/-!
# The number nearest to a value

`Single.rounded` rounds a rational number to full width, in units that are never finer than those of the least
numbers. Nothing is too large for it: what lies within the range of the format is told apart afterwards, by
`abs_rounded_lt_iff`.
-/

namespace Toolpath.Single

open Binary

/-! ### Whole numbers -/

/-- The nearest whole number, and the even one of two. -/
def roundEven (q : ℚ) : ℤ := if round q - q = 1 / 2 ∧ Odd (round q) then round q - 1 else round q

section Whole

variable {p q : ℚ} {n : ℤ}

theorem roundEven_near (q : ℚ) : |roundEven q - q| ≤ 1 / 2 := by
  have near := abs_sub_round q
  rw [abs_sub_comm] at near
  unfold roundEven
  split
  · next tie =>
    rw [Int.cast_sub, Int.cast_one, sub_right_comm, tie.1]
    norm_num
  · exact near

/-- A number halfway between two whole ones goes to the even one. -/
theorem even_roundEven (tie : |roundEven q - q| = 1 / 2) : Even (roundEven q) := by
  unfold roundEven at tie ⊢
  split_ifs at tie ⊢ with up
  · exact up.2.sub_odd odd_one
  · by_contra odd
    rw [Int.not_even_iff_odd] at odd
    rcases (abs_eq (by norm_num)).mp tie with above | below
    · exact up ⟨above, odd⟩
    · -- `round` never rounds a half down.
      have floor := round_eq q
      have : ⌊q + 1 / 2⌋ = round q + 1 := by
        rw [Int.floor_eq_iff]
        push_cast
        constructor <;> linarith
      omega

theorem roundEven_eq (near : |n - q| ≤ 1 / 2) (even : |n - q| = 1 / 2 → Even n) : roundEven q = n := by
  have other := roundEven_near q
  have otherEven := @even_roundEven q
  have apart : |((roundEven q - n : ℤ) : ℚ)| ≤ 1 := by
    push_cast
    have := abs_sub_le (roundEven q : ℚ) q n
    rw [abs_sub_comm q n] at this
    linarith
  have apart : |roundEven q - n| ≤ 1 := by exact_mod_cast apart
  rcases (abs_le.mp apart) with ⟨low, high⟩
  by_contra differ
  -- Neighbours that are both within a half lie a half away, and one of them is odd.
  have both : |roundEven q - q| = 1 / 2 ∧ |n - q| = 1 / 2 := by
    have one : |((roundEven q - n : ℤ) : ℚ)| = 1 := by
      have : |roundEven q - n| = 1 := by
        rw [abs_eq one_pos.le]
        omega
      exact_mod_cast this
    push_cast at one
    have := abs_sub_le (roundEven q : ℚ) q n
    rw [abs_sub_comm q n] at this
    constructor <;> linarith
  obtain ⟨i, left⟩ := otherEven both.1
  obtain ⟨j, right⟩ := even both.2
  omega

/-- Away from the middle between two whole numbers, none has to be even. -/
theorem roundEven_eq_of_lt (near : |n - q| < 1 / 2) : roundEven q = n :=
  roundEven_eq near.le fun tie => absurd tie near.ne

theorem roundEven_intCast (n : ℤ) : roundEven n = n := by
  apply roundEven_eq_of_lt
  norm_num

theorem roundEven_neg (q : ℚ) : roundEven (-q) = -roundEven q := by
  have flip : |((-roundEven q : ℤ) : ℚ) - -q| = |roundEven q - q| := by
    rw [Int.cast_neg, ← abs_neg]
    congr 1
    ring
  apply roundEven_eq
  · rw [flip]
    exact roundEven_near q
  · rw [flip]
    exact fun tie => (even_roundEven tie).neg

theorem roundEven_mono (le : p ≤ q) : roundEven p ≤ roundEven q := by
  by_contra more
  have apart : roundEven q + 1 ≤ roundEven p := by omega
  have apart : (roundEven q : ℚ) + 1 ≤ roundEven p := by exact_mod_cast apart
  have left := abs_le.mp (roundEven_near p)
  have right := abs_le.mp (roundEven_near q)
  have same : p = q := by linarith
  exact more (same ▸ le_refl _)

theorem roundEven_le (le : q ≤ n) : roundEven q ≤ n := by
  simpa [roundEven_intCast] using roundEven_mono le

theorem le_roundEven (le : n ≤ q) : n ≤ roundEven q := by
  simpa [roundEven_intCast] using roundEven_mono le

end Whole

/-! ### Full width -/

/-- The exponent of the unit in which a value is rounded. -/
def unitOf (v : ℚ) : ℤ := max (Int.log 2 |v| - 23) (-149)

/-- The value in full width that is nearest, and the even one of two. -/
def rounded (v : ℚ) : ℚ := roundEven (v / 2 ^ unitOf v) * 2 ^ unitOf v

/-- What full width holds without rounding. -/
def Exact (w : ℚ) : Prop := ∃ k e : ℤ, |k| < 2 ^ 24 ∧ -149 ≤ e ∧ w = k * 2 ^ e

/-- What does not round beyond the greatest number: it lies below the middle between that number and the next
power of two. -/
def InRange (v : ℚ) : Prop := |v| < 2 ^ 128 - 2 ^ 103

variable {v w : ℚ} {e : ℤ}

theorem two_zpow_add (k : ℕ) (e : ℤ) : (2 : ℚ) ^ (k + e) = 2 ^ k * 2 ^ e := by
  rw [zpow_add₀ (by norm_num), zpow_natCast]

theorem lowest_le_unitOf (v : ℚ) : -149 ≤ unitOf v := le_max_right _ _

theorem unitOf_neg (v : ℚ) : unitOf (-v) = unitOf v := by rw [unitOf, unitOf, abs_neg]

theorem abs_lt_full (v : ℚ) : |v| < 2 ^ 24 * 2 ^ unitOf v := by
  rw [← two_zpow_add]
  refine (Int.lt_zpow_succ_log_self one_lt_two |v|).trans_le ?_
  apply zpow_le_zpow_right₀ (by norm_num)
  have : Int.log 2 |v| - 23 ≤ unitOf v := le_max_left _ _
  push_cast
  omega

theorem full_le_abs (some : v ≠ 0) (normal : -149 < unitOf v) : 2 ^ 23 * 2 ^ unitOf v ≤ |v| := by
  have unit : unitOf v = Int.log 2 |v| - 23 := by
    unfold unitOf at normal ⊢
    omega
  rw [unit, ← two_zpow_add]
  simpa using Int.zpow_log_le_self one_lt_two (abs_pos.mpr some)

theorem unitOf_le (some : v ≠ 0) (high : |v| < 2 ^ 24 * 2 ^ e) (least : -149 ≤ e) : unitOf v ≤ e := by
  rw [← two_zpow_add] at high
  have above : Int.log 2 |v| < 24 + e := (Int.lt_zpow_iff_log_lt one_lt_two (abs_pos.mpr some)).mp high
  unfold unitOf
  omega

/-- The exponent at which a value is in full width, or below full width at the least one. -/
theorem unitOf_eq (some : v ≠ 0) (high : |v| < 2 ^ 24 * 2 ^ e) (low : 2 ^ 23 * 2 ^ e ≤ |v| ∨ e = -149)
    (least : -149 ≤ e) : unitOf v = e := by
  have above := unitOf_le some high least
  have lowest := lowest_le_unitOf v
  rcases low with full | rfl
  · rw [← two_zpow_add] at full
    have below : 23 + e ≤ Int.log 2 |v| := (Int.zpow_le_iff_le_log one_lt_two (abs_pos.mpr some)).mp full
    unfold unitOf at above ⊢
    omega
  · omega

theorem unitOf_mono (pos : 0 < v) (le : v ≤ w) : unitOf v ≤ unitOf w := by
  have logs : Int.log 2 |v| ≤ Int.log 2 |w| := by
    rw [abs_of_pos pos, abs_of_pos (pos.trans_le le)]
    exact Int.log_mono_right pos le
  unfold unitOf
  omega

/-- The units of a value, rounded, are full width at most. -/
theorem roundEven_units_le (v : ℚ) : roundEven (v / 2 ^ unitOf v) ≤ 2 ^ 24 := by
  apply roundEven_le
  rw [div_le_iff₀ (two_zpow_pos _)]
  push_cast
  exact (le_abs_self v).trans (abs_lt_full v).le

theorem le_roundEven_units (pos : 0 < v) (normal : -149 < unitOf v) : 2 ^ 23 ≤ roundEven (v / 2 ^ unitOf v) := by
  apply le_roundEven
  rw [le_div_iff₀ (two_zpow_pos _)]
  push_cast
  exact (full_le_abs pos.ne' normal).trans_eq (abs_of_pos pos)

theorem rounded_zero : rounded 0 = 0 := by
  have := roundEven_intCast 0
  rw [rounded, zero_div, ← Int.cast_zero, this]
  simp

theorem rounded_neg (v : ℚ) : rounded (-v) = -rounded v := by
  rw [rounded, unitOf_neg, neg_div, roundEven_neg, Int.cast_neg, neg_mul, rounded]

theorem rounded_nonneg (nonneg : 0 ≤ v) : 0 ≤ rounded v := by
  have pos := two_zpow_pos (unitOf v)
  have : 0 ≤ roundEven (v / 2 ^ unitOf v) := le_roundEven (by simpa using div_nonneg nonneg pos.le)
  exact mul_nonneg (by exact_mod_cast this) pos.le

theorem rounded_near (v : ℚ) : |rounded v - v| ≤ 2 ^ unitOf v / 2 := by
  have pos := two_zpow_pos (unitOf v)
  have scaled : |rounded v - v| = |roundEven (v / 2 ^ unitOf v) - v / 2 ^ unitOf v| * 2 ^ unitOf v := by
    rw [← abs_of_pos pos, ← abs_mul, abs_of_pos pos, sub_mul, div_mul_cancel₀ v pos.ne', rounded]
  have near := mul_le_mul_of_nonneg_right (roundEven_near (v / 2 ^ unitOf v)) pos.le
  rw [scaled]
  linarith

/-- A value that fits is its own rounding. -/
theorem rounded_exact (exact : Exact w) : rounded w = w := by
  obtain ⟨k, e, narrow, least, rfl⟩ := exact
  by_cases zero : (k : ℚ) * 2 ^ e = 0
  · rw [zero, rounded_zero]
  have high : |(k : ℚ) * 2 ^ e| < 2 ^ 24 * 2 ^ e := by
    rw [abs_mul, abs_of_pos (two_zpow_pos e)]
    have : |(k : ℚ)| < 2 ^ 24 := by exact_mod_cast narrow
    exact mul_lt_mul_of_pos_right this (two_zpow_pos e)
  have coarse := unitOf_le zero high least
  unfold rounded
  generalize unitOf (k * 2 ^ e) = t at coarse ⊢
  obtain ⟨d, rfl⟩ : ∃ d : ℕ, e = d + t := ⟨(e - t).toNat, by omega⟩
  have whole : (k : ℚ) * 2 ^ (d + t : ℤ) / 2 ^ t = ((k * 2 ^ d : ℤ) : ℚ) := by
    rw [two_zpow_add, ← mul_assoc, mul_div_assoc, div_self (two_zpow_pos t).ne', mul_one]
    push_cast
    rfl
  rw [whole, roundEven_intCast, two_zpow_add]
  push_cast
  ring

theorem exact_neg (exact : Exact w) : Exact (-w) := by
  obtain ⟨k, e, narrow, least, rfl⟩ := exact
  exact ⟨-k, e, by rwa [abs_neg], least, by push_cast; ring⟩

theorem rounded_mono_of_pos (pos : 0 < v) (le : v ≤ w) : rounded v ≤ rounded w := by
  rcases (unitOf_mono pos le).lt_or_eq with finer | same
  · -- A power of two lies between the two values.
    have lower : (roundEven (v / 2 ^ unitOf v) : ℚ) ≤ 2 ^ 24 := by exact_mod_cast roundEven_units_le v
    have upper : 2 ^ 23 ≤ (roundEven (w / 2 ^ unitOf w) : ℚ) := by
      exact_mod_cast le_roundEven_units (pos.trans_le le) ((lowest_le_unitOf v).trans_lt finer)
    calc rounded v ≤ 2 ^ 24 * 2 ^ unitOf v := mul_le_mul_of_nonneg_right lower (two_zpow_pos _).le
      _ = 2 ^ 23 * 2 ^ (unitOf v + 1) := by
        rw [two_zpow_succ]
        ring
      _ ≤ 2 ^ 23 * 2 ^ unitOf w :=
        mul_le_mul_of_nonneg_left (zpow_le_zpow_right₀ (by norm_num) (by omega)) (by norm_num)
      _ ≤ rounded w := mul_le_mul_of_nonneg_right upper (two_zpow_pos _).le
  · unfold rounded
    rw [same]
    refine mul_le_mul_of_nonneg_right ?_ (two_zpow_pos _).le
    exact_mod_cast roundEven_mono (div_le_div_of_nonneg_right le (two_zpow_pos _).le)

theorem rounded_mono (le : v ≤ w) : rounded v ≤ rounded w := by
  rcases lt_trichotomy v 0 with negative | rfl | pos
  · rcases lt_or_ge w 0 with negative | nonneg
    · have := rounded_mono_of_pos (neg_pos.mpr negative) (neg_le_neg le)
      rw [rounded_neg, rounded_neg] at this
      exact neg_le_neg_iff.mp this
    · have := rounded_nonneg (neg_nonneg.mpr negative.le)
      rw [rounded_neg] at this
      linarith [rounded_nonneg nonneg]
  · rw [rounded_zero]
    exact rounded_nonneg le
  · exact rounded_mono_of_pos pos le

/-- Rounding does not carry a value past one that fits. -/
theorem rounded_le (exact : Exact w) (le : v ≤ w) : rounded v ≤ w := by
  rw [← rounded_exact exact]
  exact rounded_mono le

theorem le_rounded (exact : Exact w) (le : w ≤ v) : w ≤ rounded v := by
  rw [← rounded_exact exact]
  exact rounded_mono le

theorem abs_rounded_le (exact : Exact w) (le : |v| ≤ w) : |rounded v| ≤ w := by
  obtain ⟨low, high⟩ := abs_le.mp le
  exact abs_le.mpr ⟨le_rounded (exact_neg exact) low, rounded_le exact high⟩

/-! ### The error -/

theorem exact_two_zpow {e : ℤ} (least : -149 ≤ e) : Exact (2 ^ e) := ⟨1, e, by norm_num, least, by simp⟩

/-- Rounding adds little to a value that does not exceed a normal one. -/
theorem rounded_le_add (nonneg : 0 ≤ v) (le : v ≤ w) (normal : 2 ^ (-126 : ℤ) ≤ w) : rounded v ≤ v + w / 2 ^ 24 := by
  rcases nonneg.eq_or_lt with rfl | pos
  · rw [rounded_zero]
    positivity
  have near := (abs_le.mp (rounded_near v)).2
  have unit : (2 : ℚ) ^ unitOf v ≤ w / 2 ^ 23 := by
    rw [le_div_iff₀ (by norm_num)]
    rcases (lowest_le_unitOf v).lt_or_eq with wide | least
    · have full := full_le_abs pos.ne' wide
      rw [abs_of_pos pos] at full
      linarith
    · rw [← least]
      refine le_trans ?_ normal
      norm_num
  linarith

/-- A little more than a number of the least unit rounds back to it. -/
theorem rounded_le_of_subnormal (pos : 0 < v) (exact : Exact v) (small : v < 2 ^ (-126 : ℤ))
    (le : w ≤ v + v / 2 ^ 24) : rounded w ≤ v := by
  obtain ⟨n, rfl⟩ : ∃ n : ℤ, v = n * 2 ^ (-149 : ℤ) := by
    obtain ⟨k, e, -, least, rfl⟩ := exact
    obtain ⟨d, rfl⟩ : ∃ d : ℕ, e = d + -149 := ⟨(e + 149).toNat, by omega⟩
    refine ⟨k * 2 ^ d, ?_⟩
    rw [two_zpow_add]
    push_cast
    ring
  have unitPos : (0 : ℚ) < 2 ^ (-149 : ℤ) := two_zpow_pos _
  have nPos : (0 : ℚ) < n := pos_of_mul_pos_left pos unitPos.le
  have nSmall : (n : ℚ) < 2 ^ 23 := by
    rw [show (2 : ℚ) ^ (-126 : ℤ) = 2 ^ 23 * 2 ^ (-149 : ℤ) by norm_num] at small
    exact lt_of_mul_lt_mul_right small unitPos.le
  have scaled : (n : ℚ) * 2 ^ (-149 : ℤ) + n * 2 ^ (-149 : ℤ) / 2 ^ 24 = (n + n / 2 ^ 24) * 2 ^ (-149 : ℤ) := by ring
  rw [scaled] at le
  have morePos : 0 < ((n : ℚ) + n / 2 ^ 24) * 2 ^ (-149 : ℤ) := by positivity
  have unit : unitOf ((n + n / 2 ^ 24) * 2 ^ (-149 : ℤ)) = -149 := by
    refine unitOf_eq morePos.ne' ?_ (Or.inr rfl) le_rfl
    rw [abs_of_pos morePos]
    exact mul_lt_mul_of_pos_right (by linarith) unitPos
  refine (rounded_mono le).trans_eq ?_
  have whole : roundEven ((n + n / 2 ^ 24) * 2 ^ (-149 : ℤ) / 2 ^ (-149 : ℤ)) = n := by
    rw [mul_div_cancel_right₀ _ unitPos.ne']
    refine roundEven_eq_of_lt ?_
    rw [sub_add_cancel_left, abs_neg, abs_of_pos (by positivity)]
    linarith
  rw [rounded, unit, whole]

/-! ### The range of the format -/

theorem inRange_neg : InRange (-v) ↔ InRange v := by rw [InRange, abs_neg, InRange]

theorem inRange_of_abs_le (le : |v| ≤ |w|) (range : InRange w) : InRange v := le.trans_lt range

/-- The least value beyond the range is a tie, and goes up. -/
theorem rounded_limit : rounded (2 ^ 128 - 2 ^ 103) = 2 ^ 128 := by
  have unit : unitOf (2 ^ 128 - 2 ^ 103) = 104 := by
    apply unitOf_eq
    · norm_num
    · rw [← two_zpow_add, abs_of_pos (by norm_num)]
      norm_num
    · rw [← two_zpow_add, abs_of_pos (by norm_num)]
      norm_num
    · norm_num
  have tie : roundEven ((2 ^ 128 - 2 ^ 103) / 2 ^ (104 : ℤ)) = 2 ^ 24 := by
    apply roundEven_eq
    · norm_num [abs_le]
    · exact fun _ => by decide
  rw [rounded, unit, tie]
  norm_num

theorem rounded_lt_iff (nonneg : 0 ≤ v) : rounded v < 2 ^ 128 ↔ v < 2 ^ 128 - 2 ^ 103 := by
  constructor
  · intro small
    by_contra large
    have := rounded_mono (not_lt.mp large)
    rw [rounded_limit] at this
    linarith
  · intro below
    have greatest : Exact ((2 ^ 24 - 1 : ℤ) * 2 ^ (104 : ℤ)) := ⟨2 ^ 24 - 1, 104, by norm_num, by norm_num, rfl⟩
    rcases le_or_gt v ((2 ^ 24 - 1 : ℤ) * 2 ^ (104 : ℤ)) with within | beyond
    · refine (rounded_le greatest within).trans_lt ?_
      norm_num
    · -- Less than half a unit beyond the greatest number.
      have unit : unitOf v = 104 := by
        push_cast at beyond
        apply unitOf_eq
        · linarith
        · rw [abs_of_nonneg nonneg]
          linarith
        · rw [abs_of_nonneg nonneg]
          left
          linarith
        · norm_num
      have near := (abs_le.mp (rounded_near v)).2
      rw [unit] at near
      norm_num at near below ⊢
      linarith

/-- The values in range are those that round to a number of the format. -/
theorem abs_rounded_lt_iff : |rounded v| < 2 ^ 128 ↔ InRange v := by
  rcases le_total 0 v with nonneg | nonpos
  · rw [abs_of_nonneg (rounded_nonneg nonneg), rounded_lt_iff nonneg, InRange, abs_of_nonneg nonneg]
  · have nonneg := neg_nonneg.mpr nonpos
    rw [← abs_neg, ← rounded_neg, abs_of_nonneg (rounded_nonneg nonneg), rounded_lt_iff nonneg, ← inRange_neg, InRange,
      abs_of_nonneg nonneg]

end Toolpath.Single

import Toolpath.Proofs.Decimal.Shortest
import Toolpath.Proofs.Json.Midpoints

/-!
# Numbers read back

A single-precision number is written with the fewest digits that identify it, and read through a double that
may be off by two roundings. Few digits come so close to an end of the number that this could matter only in
the cases that `near_midpoint` settles; many digits are so near the number itself that its ends are far away.
-/

namespace Toolpath.Json

open Binary Decimal Double

/-! ### The digits that are taken -/

theorem takeDigits_eq {s : ℕ} {ds : List Char} (fits : 10 ^ ds.length * s + ofDigits ds ≤ maxSignificand) :
    takeDigits s ds = (10 ^ ds.length * s + ofDigits ds, ds.length) := by
  induction ds generalizing s with
  | nil =>
    change (s, 0) = (1 * s + 0, 0)
    rw [one_mul, add_zero]
  | cons d ds ih =>
    have same : 10 ^ (d :: ds).length * s + ofDigits (d :: ds)
        = 10 ^ ds.length * (10 * s + digitValue d) + ofDigits ds := by
      rw [ofDigits_cons, List.length_cons, pow_succ]
      ring
    rw [same] at fits ⊢
    have here : 10 * s + digitValue d ≤ maxSignificand := by
      have := Nat.le_mul_of_pos_left (10 * s + digitValue d) (Nat.pow_pos (n := ds.length) (show 0 < 10 by decide))
      omega
    unfold takeDigits
    dsimp only
    rw [if_neg (by omega), ih fits]
    rfl

theorem toDouble?_eq {n : Numeral} (fits : n.significand ≤ maxSignificand) :
    toDouble? n = (scaleByTen 4 (UInt64.ofNat n.significand).toFloat n.scale).map
      fun y => if n.negative then -y else y := by
  have parts : n.significand
      = 10 ^ (n.fraction.getD []).length * ofDigits n.whole + ofDigits (n.fraction.getD []) := ofDigits_append _ _
  have whole : ofDigits n.whole ≤ n.significand := by
    have := Nat.le_mul_of_pos_left (ofDigits n.whole)
      (Nat.pow_pos (n := (n.fraction.getD []).length) (show 0 < 10 by decide))
    omega
  have first : takeDigits 0 n.whole = (ofDigits n.whole, n.whole.length) := by
    rw [takeDigits_eq (by omega), mul_zero, zero_add]
  have second : takeDigits (ofDigits n.whole) (n.fraction.getD [])
      = (n.significand, (n.fraction.getD []).length) := by
    rw [takeDigits_eq (by omega), ← parts]
  have scale : n.exponent.getD 0 + (n.whole.length - n.whole.length : ℕ) - (n.fraction.getD []).length = n.scale := by
    rw [Nat.sub_self, Nat.cast_zero, add_zero]
    rfl
  unfold toDouble?
  rw [first]
  dsimp only
  rw [second]
  dsimp only
  rw [scale]

/-! ### Between a number and its ends -/

section Single

variable {m : Magnitude} {v w : ℚ} {n d : ℕ} {e : ℤ} (fits : single.Fits m) (pos : 0 < m.significand)
include fits pos

omit fits in
theorem exists_lowEnd (narrow : m.significand < 2 ^ 24) :
    ∃ (h : ℕ) (t : ℤ), 0 < h ∧ h ≤ 2 ^ 25 ∧ single.lowEnd m = h * 2 ^ t := by
  unfold Format.lowEnd
  split
  · next lower =>
    have least : m.significand = 2 ^ 23 := beq_iff_eq.mp (Bool.and_eq_true_iff.mp lower).1
    refine ⟨4 * m.significand - 1, m.exponent - 2, by omega, by omega, ?_⟩
    rw [Nat.cast_sub (by omega), zpow_sub₀ (by norm_num)]
    push_cast
    ring
  · refine ⟨2 * m.significand - 1, m.exponent - 1, by omega, by omega, ?_⟩
    rw [Nat.cast_sub (by omega), zpow_sub₀ (by norm_num)]
    push_cast
    ring

omit fits pos in
theorem exists_highEnd (narrow : m.significand < 2 ^ 24) :
    ∃ (h : ℕ) (t : ℤ), 0 < h ∧ h ≤ 2 ^ 25 ∧ Format.highEnd m = h * 2 ^ t := by
  refine ⟨2 * m.significand + 1, m.exponent - 1, by omega, by omega, ?_⟩
  rw [Format.highEnd, zpow_sub₀ (by norm_num)]
  push_cast
  ring

/-- What reads back is separated from what does not by a point of at most 25 bits. -/
theorem exists_point (reads : single.Reads m v) (off : ¬ single.Reads m w) :
    ∃ (h : ℕ) (t : ℤ), 0 < h ∧ h ≤ 2 ^ 25 ∧ |h * (2 : ℚ) ^ t - v| ≤ |w - v| := by
  have narrow : m.significand < 2 ^ 24 := fits.narrow
  have low := reads.low
  have high := reads.high
  have either : |single.lowEnd m - v| ≤ |w - v| ∨ |Format.highEnd m - v| ≤ |w - v| := by
    rw [abs_of_nonpos (sub_nonpos.mpr low), abs_of_nonneg (sub_nonneg.mpr high)]
    by_contra both
    obtain ⟨left, right⟩ := not_or.mp both
    obtain ⟨first, second⟩ := abs_lt.mp (lt_min (not_le.mp left) (not_le.mp right))
    refine off ⟨?_, ?_, fun _ => ⟨ne_of_lt ?_, ne_of_lt ?_⟩⟩
    all_goals
      have := min_le_left (-(single.lowEnd m - v)) (Format.highEnd m - v)
      have := min_le_right (-(single.lowEnd m - v)) (Format.highEnd m - v)
      linarith
  rcases either with near | near
  · obtain ⟨h, t, hpos, small, same⟩ := exists_lowEnd pos narrow
    exact ⟨h, t, hpos, small, same ▸ near⟩
  · obtain ⟨h, t, hpos, small, same⟩ := exists_highEnd narrow
    exact ⟨h, t, hpos, small, same ▸ near⟩

theorem scale_range (dpos : 0 < d) (reads : single.Reads m (d * 10 ^ e)) :
    e ≤ 38 ∧ (d ≤ 10 ^ 9 → -60 ≤ e) ∧ (d ≤ 2 ^ 24 → -53 ≤ e) := by
  obtain ⟨low, high⟩ := reads.single_range fits pos
  have one : (1 : ℚ) ≤ d := by exact_mod_cast dpos
  have epos := ten_zpow_pos e
  refine ⟨?_, fun small => ?_, fun small => ?_⟩
  · by_contra large
    have := zpow_le_zpow_right₀ (show (1 : ℚ) ≤ 10 by norm_num) (show 39 ≤ e by omega)
    have := mul_le_mul one this (by positivity) (by positivity)
    norm_num at this high
    linarith
  · by_contra large
    have small : (d : ℚ) ≤ 10 ^ 9 := by exact_mod_cast small
    have := zpow_le_zpow_right₀ (show (1 : ℚ) ≤ 10 by norm_num) (show e ≤ -61 by omega)
    have := mul_le_mul small this epos.le (by positivity)
    norm_num at this low
    linarith
  · by_contra large
    have small : (d : ℚ) ≤ 2 ^ 24 := by exact_mod_cast small
    have := zpow_le_zpow_right₀ (show (1 : ℚ) ≤ 10 by norm_num) (show e ≤ -54 by omega)
    have := mul_le_mul small this epos.le (by positivity)
    norm_num at this low
    linarith

/-- More digits than a significand can tell apart leave room for two roundings, even where the lower end is
only a quarter of a unit away. -/
theorem reads_of_many (found : onGrid? single .toEven m e = some n) (many : 2 ^ 24 < n)
    (near : |w - n * 10 ^ e| ≤ n * 10 ^ e / 2 ^ 51) : single.Reads m w := by
  have narrow : (m.significand : ℚ) + 1 ≤ 2 ^ 24 := by
    have : m.significand < 2 ^ 24 := fits.narrow
    exact_mod_cast this
  have many : (2 : ℚ) ^ 24 + 1 ≤ n := by exact_mod_cast many
  obtain ⟨left, right⟩ := abs_le.mp near
  have unit := ten_zpow_pos e
  have gap := two_zpow_pos m.exponent
  have value : m.value = m.significand * 2 ^ m.exponent := rfl
  have highEnd : Format.highEnd m = m.value + 2 ^ m.exponent / 2 := by
    rw [Format.highEnd, value]
    ring
  have most : m.value ≤ (2 ^ 24 - 1) * 2 ^ m.exponent := mul_le_mul_of_nonneg_right (by linarith) gap.le
  have within : single.lowEnd m < w → w < Format.highEnd m → single.Reads m w := fun low high =>
    ⟨low.le, high.le, fun _ => ⟨low.ne, high.ne⟩⟩
  cases lower : single.narrowBelow m with
  | false =>
    have lowEnd : single.lowEnd m = m.value - 2 ^ m.exponent / 2 := by
      rw [Format.lowEnd, lower, if_neg Bool.false_ne_true, value]
      ring
    obtain ⟨below, above⟩ := abs_le.mp (onGrid?_near pos lower found)
    have fine : ((2 : ℚ) ^ 24 + 1) * 10 ^ e ≤ n * 10 ^ e := mul_le_mul_of_nonneg_right many unit.le
    refine within ?_ ?_
    · linarith
    · linarith
  | true =>
    have least : m.significand = 2 ^ 23 := beq_iff_eq.mp (Bool.and_eq_true_iff.mp lower).1
    have exact : m.value = 2 ^ 23 * 2 ^ m.exponent := by
      rw [value, least]
      norm_num
    have lowEnd : single.lowEnd m = m.value - 2 ^ m.exponent / 4 := by
      rw [Format.lowEnd, lower, if_pos rfl, value]
      ring
    obtain ⟨floorLow, floorHigh⟩ := floorOn_spec m e
    obtain ⟨_, choice⟩ := onGrid?_cases pos found
    have even : m.significand % 2 = 1 → False := by omega
    rcases choice with ⟨rfl, nearer⟩ | ⟨rfl, nearer⟩
    · have fine : ((2 : ℚ) ^ 24 + 1) * 10 ^ e ≤ floorOn m e * 10 ^ e := mul_le_mul_of_nonneg_right many unit.le
      -- The upper neighbour would read back as well, so the lower one is the nearer.
      have half : 2 * m.value ≤ (2 * floorOn m e + 1) * 10 ^ e := by
        refine nearer ⟨?_, ?_, fun odd => (even odd).elim⟩
        · rw [lowEnd]
          push_cast
          linarith
        · rw [highEnd]
          push_cast
          linarith
      refine within ?_ ?_
      · linarith
      · linarith
    · push_cast at many left right near
      have fine : (2 : ℚ) ^ 24 * 10 ^ e ≤ floorOn m e * 10 ^ e :=
        mul_le_mul_of_nonneg_right (by linarith) unit.le
      -- Either the upper neighbour is the nearer, or the lower one is below the lower end.
      have quarter : (floorOn m e + 1) * 10 ^ e ≤ m.value + 2 ^ m.exponent / 4 := by
        by_cases back : single.lowEnd m ≤ floorOn m e * 10 ^ e
        · have half := nearer ⟨back, by rw [highEnd]; linarith, fun odd => (even odd).elim⟩
          linarith
        · rw [lowEnd] at back
          linarith
      refine within ?_ ?_
      · linarith
      · linarith

/-- Digits that read back still do so after the two roundings of the reader. -/
theorem nearest_scaleByTen (dpos : 0 < d) (few : d ≤ 10 ^ 9) (reads : single.Reads m (d * 10 ^ e))
    (many : 2 ^ 24 < d → ∀ w : ℚ, |w - d * 10 ^ e| ≤ d * 10 ^ e / 2 ^ 51 → single.Reads m w) :
    ∃ y r, scaleByTen 4 (UInt64.ofNat d).toFloat e = some y ∧ Stands y false r ∧
      single.nearest r.ratio = some m := by
  obtain ⟨high, low, lowest⟩ := scale_range fits pos dpos reads
  obtain ⟨y, r, scaled, holds, error, exact⟩ := scaleByTen_spec dpos (by omega) (low few) (by omega)
  have nearest : single.Reads m r.value → single.nearest r.ratio = some m := fun back =>
    Format.nearest_of_reads (by decide) fits pos (Magnitude.ratio_den_pos r) (by rwa [Magnitude.value_ratio])
  refine ⟨y, r, scaled, holds.1, ?_⟩
  by_cases back : single.Reads m r.value
  · exact nearest back
  · have small : d ≤ 2 ^ 24 := by
      by_contra large
      exact back (many (by omega) _ error)
    obtain ⟨h, t, hpos, hsmall, between⟩ := exists_point fits pos reads back
    rcases near_midpoint dpos small hpos hsmall (lowest small) high (between.trans error) with ⟨same, power⟩ | again
    · have value : r.value = d * 10 ^ e := (exact power).exact (s := h) (e := t) (by omega) same
      exact nearest (value ▸ reads)
    · unfold rereads at again
      rw [scaled] at again
      dsimp only at again
      rw [beq_iff_eq, holds.1.magnitude] at again
      rw [again]
      exact Format.nearest_of_reads (by decide) fits pos (scaled_den_pos d e) (by rwa [value_scaled])

/-- A whole number of less than 53 bits is read without an error. -/
theorem nearest_scaleByTen_whole (dpos : 0 < d) (narrow : 10 * d < 2 ^ 53) (reads : single.Reads m d) :
    ∃ y r, scaleByTen 4 (UInt64.ofNat (10 * d)).toFloat (-1) = some y ∧ Stands y false r ∧
      single.nearest r.ratio = some m := by
  obtain ⟨y, r, scaled, holds, _, exact⟩ := scaleByTen_spec (e := -1) (by omega : 0 < 10 * d) narrow (by omega) (by omega)
  have tenth : ((10 * d : ℕ) : ℚ) * 10 ^ (-1 : ℤ) = d := by
    push_cast
    ring
  have value : r.value = d := by
    rw [tenth] at exact
    exact (exact (by decide)).exact (s := d) (e := 0) (by omega) (by rw [zpow_zero, mul_one])
  refine ⟨y, r, scaled, holds.1, ?_⟩
  refine Format.nearest_of_reads (by decide) fits pos (Magnitude.ratio_den_pos r) ?_
  rw [Magnitude.value_ratio, value]
  exact reads

end Single

/-! ### The way back -/

variable {x : Float32}

theorem toSingle?_of_nearest {n : Numeral} (notInteger : n.isInteger = false) (small : n.significand < 2 ^ 53)
    (sign : n.negative = Single.isNegative x) {y : Float} {r : Magnitude}
    (scaled : scaleByTen 4 (UInt64.ofNat n.significand).toFloat n.scale = some y) (stands : Stands y false r)
    (nearest : single.nearest r.ratio = some (Single.magnitude x)) : toSingle? n = some x := by
  have limit : n.significand ≤ maxSignificand := by
    have : (2 : ℕ) ^ 53 ≤ maxSignificand := by decide
    omega
  have notFits : fitsInteger n = false := by rw [fitsInteger, notInteger, Bool.false_and]
  unfold toSingle?
  rw [notFits, if_neg Bool.false_ne_true, toDouble?_eq limit, scaled, sign]
  simp only [Option.map_some, Option.some.injEq]
  have back := Single.ofRatio_of_nearest nearest
  cases negative : Single.isNegative x with
  | false =>
    rw [negative] at back
    rw [if_neg Bool.false_ne_true, Single.ofDouble_of_stands stands, back]
  | true =>
    rw [negative] at back
    rw [if_pos rfl, Single.ofDouble_of_stands stands.neg, back]

theorem toSingle?_zero (none : (Single.magnitude x).significand = 0) : toSingle? (numberStyle.single x) = some x := by
  rcases Single.eq_zero none with rfl | rfl
  · decide +kernel
  · decide +kernel

theorem toSingle?_single (finite : x.isFinite = true) : toSingle? (numberStyle.single x) = some x := by
  rcases Nat.eq_zero_or_pos (Single.magnitude x).significand with zero | pos
  · exact toSingle?_zero zero
  · have fits := Single.fits_magnitude finite
    obtain ⟨n, e, npos, few, found, digits⟩ := shortest_single .toEven fits pos
    obtain ⟨k, row, split, last⟩ := Digits.ofScaled_eq npos e
    have laid := laid_layout (s := numberStyle) (Single.isNegative x) rfl row
    have written : numberStyle.single x = numberStyle.layout (Single.isNegative x) (Digits.ofScaled n e) := by
      unfold Style.single Style.magnitude
      rw [if_neg pos.ne', ← digits]
      rfl
    have value : (ofDigits (Digits.ofScaled n e).digits : ℚ) * 10 ^ (Digits.ofScaled n e).last = n * 10 ^ e :=
      Digits.value_ofScaled npos e
    have reads := (onGrid?_cases pos found).1
    rw [written]
    generalize Digits.ofScaled n e = d at *
    have dpos : 0 < ofDigits d.digits := by
      have := ofDigits_pos row
      have := Nat.pow_pos (n := d.digits.length - 1) (show 0 < 10 by decide)
      omega
    have le : ofDigits d.digits ≤ n := by
      have := Nat.le_mul_of_pos_left (ofDigits d.digits) (Nat.pow_pos (n := k) (show 0 < 10 by decide))
      omega
    rcases laid.exact with ⟨significand, scale⟩ | ⟨j, significand, scale, whole, bounded⟩
    · rw [← value] at reads
      obtain ⟨y, r, scaled, stands, nearest⟩ := nearest_scaleByTen fits pos dpos (le.trans few) reads
        fun many w error => reads_of_many fits pos found (many.trans_le le) (value ▸ error)
      rw [← significand, ← scale] at scaled
      exact toSingle?_of_nearest laid.notInteger (by omega) laid.sign scaled stands nearest
    · have length : d.digits.length + j ≤ 13 := by
        have bounded : d.exponent ≤ 12 := of_decide_eq_true bounded
        rw [Digits.last] at whole
        omega
      have small : 10 ^ j * ofDigits d.digits < 10 ^ 13 := by
        calc 10 ^ j * ofDigits d.digits < 10 ^ j * 10 ^ d.digits.length :=
              Nat.mul_lt_mul_of_pos_left (ofDigits_lt row.digits) (by positivity)
          _ = 10 ^ (d.digits.length + j) := by rw [← pow_add, add_comm]
          _ ≤ 10 ^ 13 := Nat.pow_le_pow_right (by decide) length
      have back : single.Reads (Single.magnitude x) ((10 ^ j * ofDigits d.digits : ℕ) : ℚ) := by
        rw [whole, zpow_natCast] at value
        rw [← value] at reads
        push_cast
        rwa [mul_comm]
      have ten : 10 ^ (j + 1) * ofDigits d.digits = 10 * (10 ^ j * ofDigits d.digits) := by
        rw [pow_succ]
        ring
      rw [ten] at significand
      obtain ⟨y, r, scaled, stands, nearest⟩ :=
        nearest_scaleByTen_whole fits pos (by positivity) (by omega) back
      rw [← significand, ← scale] at scaled
      exact toSingle?_of_nearest laid.notInteger (by omega) laid.sign scaled stands nearest

end Toolpath.Json

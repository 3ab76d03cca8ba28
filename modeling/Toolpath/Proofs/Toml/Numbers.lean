import Toolpath.Proofs.Binary.Rounding
import Toolpath.Proofs.Decimal.Numerals
import Toolpath.Toml.Settings

/-!
# Numbers read back

A single-precision number is written as the double that has its value. The digits of the double are read as
the double again, which narrows to the number.
-/

namespace Toolpath.Single

open Binary

variable {x : Float32} (finite : x.isFinite = true) (pos : 0 < (magnitude x).significand)
include finite pos

/-- A number has a double of the same value. -/
theorem stands_widen : ∃ m, Double.Stands (widen x) (isNegative x) m ∧ m.value = (magnitude x).value := by
  obtain ⟨notNaN, notInf⟩ := isFinite_split finite
  have fits := fits_magnitude finite
  have narrow : (magnitude x).significand < 2 ^ 24 := fits.narrow
  obtain ⟨least, most⟩ := (Format.reads_value single (magnitude x)).single_range fits pos
  obtain ⟨low, high⟩ := Double.within_double (v := (magnitude x).value)
    (le_trans (by norm_num) least) (most.trans (pow_le_pow_right₀ (by norm_num) (by norm_num)))
  rw [← Magnitude.value_ratio] at low high
  obtain ⟨m, nearest, fitsDouble, full, rounds⟩ := Double.nearest_double (Magnitude.ratio_den_pos _) low high
  rw [Magnitude.value_ratio] at rounds
  refine ⟨m, ?_, rounds.exact (s := (magnitude x).significand) (by omega) rfl⟩
  unfold widen
  rw [notNaN, notInf]
  exact Double.stands_ofRatio nearest fitsDouble (by omega) _

end Toolpath.Single

namespace Toolpath.Toml

open Binary Decimal

variable {x : Float32}

theorem nearest_double_widen (finite : x.isFinite = true) (pos : 0 < (Single.magnitude x).significand) :
    ∃ m, (numberStyle.double (Single.widen x)).nearest double = some m ∧
      Double.Stands (numberStyle.double (Single.widen x)).toDouble (Single.isNegative x) m ∧
      m.value = (Single.magnitude x).value := by
  obtain ⟨m, stands, value⟩ := Single.stands_widen finite pos
  obtain ⟨d, laid, reads⟩ := laid_magnitude numberStyle double (Single.isNegative x) stands.pos rfl
  have written : numberStyle.double (Single.widen x) = numberStyle.magnitude double (Single.isNegative x) m := by
    unfold Style.double
    rw [stands.isNegative, stands.magnitude]
  rw [written]
  generalize numberStyle.magnitude double (Single.isNegative x) m = n at *
  obtain ⟨least, most⟩ := (Format.reads_value single (Single.magnitude x)).single_range (Single.fits_magnitude finite) pos
  obtain ⟨near, far⟩ := reads.near stands.pos
  rw [value] at near far
  have nearest : n.nearest double = some m := by
    rw [Numeral.nearest_eq laid.proper]
    · exact Format.nearest_of_reads (by decide) stands.fits stands.pos n.ratio_den_pos
        (by rwa [Numeral.value_ratio, laid.value])
    · rw [laid.value]
      have small : (10 : ℚ) ^ (-400 : ℤ) ≤ 10 ^ (-50 : ℤ) := zpow_le_zpow_right₀ (by norm_num) (by norm_num)
      have least : (1 : ℚ) / 2 ^ 151 ≤ d.value := by linarith
      exact small.trans (le_trans (by norm_num) least)
    · rw [laid.value]
      have large : (10 : ℚ) ^ (50 : ℤ) ≤ 10 ^ (400 : ℤ) := zpow_le_zpow_right₀ (by norm_num) (by norm_num)
      have most : d.value ≤ 2 ^ 129 := by linarith
      exact (most.trans_lt (by norm_num)).trans_le large
  refine ⟨m, nearest, ?_, value⟩
  unfold Numeral.toDouble
  rw [nearest, laid.sign]
  exact Double.stands_ofBits stands.fits stands.pos _

/-- What is written for a number is read as the same number. -/
theorem toSingle?_ofSingle (finite : x.isFinite = true) : ∃ n : Numeral, Scalar.ofSingle x = .decimal n ∧
    n.Proper ∧ n.isInteger = false ∧ decimal? n = some (.decimal n) ∧ Scalar.toSingle? (.decimal n) = some x := by
  obtain ⟨notNaN, notInf⟩ := Single.isFinite_split finite
  obtain ⟨proper, notInteger⟩ := proper_magnitude (s := numberStyle) rfl double
    (Double.isNegative (Single.widen x)) (Double.magnitude (Single.widen x))
  refine ⟨numberStyle.double (Single.widen x), ?_, proper, notInteger, ?_⟩
  · unfold Scalar.ofSingle
    rw [notNaN, notInf]
    rfl
  · rcases Nat.eq_zero_or_pos (Single.magnitude x).significand with none | pos
    · rcases Single.eq_zero none with rfl | rfl
      · decide +kernel
      · decide +kernel
    · obtain ⟨m, nearest, stands, value⟩ := nearest_double_widen finite pos
      constructor
      · unfold decimal?
        rw [nearest]
        rfl
      · change some (Single.ofDouble (numberStyle.double (Single.widen x)).toDouble) = some x
        rw [Single.ofDouble_of_reads finite pos stands]
        rw [value]
        exact Format.reads_value single _

end Toolpath.Toml

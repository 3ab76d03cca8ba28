import Mathlib
import Toolpath.Proofs.Binary.Arithmetic

/-!
# Finite results

What is not finite stays so: a sum, a difference or a product is finite only if both operands are, and then
if the exact result is in range. A comparison with a finite bound on each side finds a number finite, too.
-/

namespace Toolpath.Single

open Float.Model (UnpackedFloat)
open Float.Model.UnpackedFloat (Sign)

variable {x y a b : Float32} {u w : UnpackedFloat}

theorem isFinite_ofModel_infinity (s : Sign) : (ofModel (.infinity s)).isFinite = false := by cases s <;> rfl

theorem isFinite_ofModel_notANumber : (ofModel .notANumber).isFinite = false := rfl

/-! ### Sums and products -/

theorem finite_of_add (finite : (ofModel (UnpackedFloat.add .binary32 u w)).isFinite = true) :
    u.isFinite = true ∧ w.isFinite = true := by
  have infinite (s : Sign) : (ofModel (.infinity s)).isFinite ≠ true := by simp [isFinite_ofModel_infinity]
  have nothing : (ofModel .notANumber).isFinite ≠ true := by simp [isFinite_ofModel_notANumber]
  cases u with
  | notANumber => exact absurd finite nothing
  | infinity s =>
    cases w with
    | infinity t =>
      cases s <;> cases t
      · exact absurd finite (infinite _)
      · exact absurd finite nothing
      · exact absurd finite nothing
      · exact absurd finite (infinite _)
    | notANumber => exact absurd finite nothing
    | _ => exact absurd finite (infinite s)
  | _ =>
    cases w with
    | notANumber => exact absurd finite nothing
    | infinity t => exact absurd finite (infinite t)
    | _ => exact ⟨rfl, rfl⟩

theorem finite_of_mul (finite : (ofModel (UnpackedFloat.mul .binary32 u w)).isFinite = true) :
    u.isFinite = true ∧ w.isFinite = true := by
  have infinite (s : Sign) : (ofModel (.infinity s)).isFinite ≠ true := by simp [isFinite_ofModel_infinity]
  have nothing : (ofModel .notANumber).isFinite ≠ true := by simp [isFinite_ofModel_notANumber]
  cases u with
  | notANumber => exact absurd finite nothing
  | infinity s =>
    cases w with
    | infinity t => exact absurd finite (infinite (s * t))
    | finite t => exact absurd finite (infinite (s * t))
    | _ => exact absurd finite nothing
  | zero s =>
    cases w with
    | notANumber | infinity => exact absurd finite nothing
    | _ => exact ⟨rfl, rfl⟩
  | finite s =>
    cases w with
    | notANumber => exact absurd finite nothing
    | infinity t => exact absurd finite (infinite (s * t))
    | _ => exact ⟨rfl, rfl⟩

theorem isFinite_add_iff :
    (x + y).isFinite = true ↔ x.isFinite = true ∧ y.isFinite = true ∧ InRange (value x + value y) := by
  constructor
  · intro finite
    obtain ⟨left, right⟩ := finite_of_add finite
    exact ⟨left, right, (rounds_add left right).finite_iff.mp finite⟩
  · rintro ⟨left, right, range⟩
    exact (rounds_add left right).finite_iff.mpr range

theorem isFinite_sub_iff :
    (x - y).isFinite = true ↔ x.isFinite = true ∧ y.isFinite = true ∧ InRange (value x - value y) := by
  constructor
  · intro finite
    have sum := finite
    change (ofModel (UnpackedFloat.sub .binary32 x.toModel.unpack y.toModel.unpack)).isFinite = true at sum
    rw [sub_eq_add_neg_model] at sum
    obtain ⟨left, right⟩ := finite_of_add sum
    rw [isFinite_neg] at right
    exact ⟨left, right, (rounds_sub left right).finite_iff.mp finite⟩
  · rintro ⟨left, right, range⟩
    exact (rounds_sub left right).finite_iff.mpr range

theorem isFinite_mul_iff :
    (x * y).isFinite = true ↔ x.isFinite = true ∧ y.isFinite = true ∧ InRange (value x * value y) := by
  constructor
  · intro finite
    obtain ⟨left, right⟩ := finite_of_mul finite
    exact ⟨left, right, (rounds_mul left right).finite_iff.mp finite⟩
  · rintro ⟨left, right, range⟩
    exact (rounds_mul left right).finite_iff.mpr range

theorem inRange_of_exact {v : ℚ} (exact : Exact v) (small : |v| < 2 ^ 128) : InRange v := by
  rwa [← abs_rounded_lt_iff, rounded_exact exact]

theorem inRange_value (x : Float32) : InRange (value x) := inRange_of_exact (exact_value x) (abs_value_lt x)

theorem exact_abs {v : ℚ} (exact : Exact v) : Exact |v| := by
  rcases abs_choice v with same | flipped
  · rwa [same]
  · rw [flipped]
    exact exact_neg exact

theorem isFinite_abs_of (finite : x.isFinite = true) : x.abs.isFinite = true :=
  (rounds_abs finite).finite_iff.mpr ((inRange_of_abs_le (abs_abs _).le) (inRange_value x))

theorem value_abs (finite : x.isFinite = true) : value x.abs = |value x| := by
  rw [(rounds_abs finite).value (isFinite_abs_of finite), rounded_exact (exact_abs (exact_value x))]

/-! ### Comparisons -/

theorem isFinite_of_between (low : a ≤ x) (high : x ≤ b) (left : a.isFinite = true) (right : b.isFinite = true) :
    x.isFinite = true := by
  rw [le_iff_model] at low high
  change a.toModel.unpack.isFinite = true at left
  change b.toModel.unpack.isFinite = true at right
  change x.toModel.unpack.isFinite = true
  generalize a.toModel.unpack = p at *
  generalize b.toModel.unpack = q at *
  generalize x.toModel.unpack = u at *
  cases u with
  | zero | finite => rfl
  | notANumber => cases q <;> cases high
  | infinity s =>
    cases s with
    | negative =>
      cases p with
      | infinity | notANumber => cases left
      | zero => cases low
      | finite t => cases t <;> cases low
    | positive =>
      cases q with
      | infinity | notANumber => cases right
      | zero => cases high
      | finite t => cases t <;> cases high

theorem compare_swap_model (u w : UnpackedFloat) : w.compare u = (u.compare w).map Ordering.swap := by
  have swapped (m n : ℕ) (e f : ℤ) :
      ((compare e f).then (compare m n)).swap = (compare f e).then (compare n m) := by
    rw [Ordering.swap_then, Int.compare_swap, Nat.compare_swap]
  cases u with
  | notANumber => cases w <;> rfl
  | infinity s => cases w with
    | infinity t => cases s <;> cases t <;> rfl
    | finite t => cases s <;> cases t <;> rfl
    | _ => cases s <;> rfl
  | zero s => cases w with
    | infinity t => cases t <;> rfl
    | finite t => cases t <;> rfl
    | _ => rfl
  | finite s m e pos => cases w with
    | notANumber => cases s <;> rfl
    | infinity t => cases s <;> cases t <;> rfl
    | zero t => cases s <;> rfl
    | finite t n f k =>
      cases s <;> cases t
      · exact congrArg (some ·.swap) (swapped m n e f).symm
      · rfl
      · rfl
      · exact congrArg some (swapped m n e f).symm

theorem not_lt_of_le (le : x ≤ y) : ¬ y < x := by
  rw [le_iff_model, UnpackedFloat.le] at le
  rw [lt_iff_model, UnpackedFloat.lt, compare_swap_model]
  generalize x.toModel.unpack.compare y.toModel.unpack = order at *
  rcases order with _ | _ | _ | _ <;> simp_all

theorem unpack_of_isNaN (nan : x.isNaN = true) : x.toModel.unpack = .notANumber := by
  change x.toModel.unpack.isNaN = true at nan
  generalize x.toModel.unpack = u at *
  cases u with
  | notANumber => rfl
  | _ => cases nan

theorem not_lt_of_isNaN (nan : x.isNaN = true) (y : Float32) : ¬ x < y ∧ ¬ y < x := by
  rw [lt_iff_model, lt_iff_model, unpack_of_isNaN nan]
  cases y.toModel.unpack <;> exact ⟨Bool.false_ne_true, Bool.false_ne_true⟩

/-- A root is below something only if it is the root of a finite number. -/
theorem isFinite_of_sqrt_lt (less : x.sqrt < y) : x.isFinite = true := by
  rw [lt_iff_model] at less
  change (ofModel (UnpackedFloat.sqrt .binary32 x.toModel.unpack)).toModel.unpack.lt y.toModel.unpack = true at less
  change x.toModel.unpack.isFinite = true
  generalize y.toModel.unpack = w at *
  generalize x.toModel.unpack = u at *
  cases u with
  | zero | finite => rfl
  | notANumber => cases w <;> cases less
  | infinity s =>
    cases s with
    | negative => cases w <;> cases less
    | positive =>
      cases w with
      | infinity t => cases t <;> cases less
      | _ => cases less

/-! ### Whole numbers -/

/-- Numbers of many digits are widened before they are rounded. -/
theorem nearest_scientific {n : ℕ} (large : 2 ^ 23 ≤ n) : Nearest n (UnpackedFloat.ofScientific .binary32 n 0) := by
  have some : 0 < n := by omega
  unfold UnpackedFloat.ofScientific
  have wide : (0 : ℤ) < 2 ^ Float.Model.Format.binary32.exponentBits := by decide
  rw [dif_neg some.ne', if_neg (by decide), if_neg (by omega), if_pos le_rfl]
  have value : (n : ℚ) = signed .positive ((n <<< 24 * 10 ^ 0 : ℕ) * 2 ^ (-24 + 0 : ℤ)) := by
    rw [Nat.shiftLeft_eq, signed]
    push_cast
    norm_num
    ring
  rw [value]
  apply nearest_integer .positive
  · rw [Nat.shiftLeft_eq]
    positivity
  · left
    rw [Nat.le_log2 (by rw [Nat.shiftLeft_eq]; positivity), Nat.shiftLeft_eq]
    omega

theorem rounds_ofNat (n : ℕ) : Rounds n (Float32.ofNat n) := by
  change Rounds n (Float32.ofScientific n false 0)
  unfold Float32.ofScientific
  split
  · next small =>
    have whole : n.toUInt64.toNat = n := Nat.mod_eq_of_lt (by omega)
    have exact : Exact n :=
      ⟨n, 0, by rw [Nat.abs_cast]; exact_mod_cast small.1.trans (by norm_num), by norm_num, by simp⟩
    have converted : Rounds n n.toUInt64.toFloat32 := by
      have nearest := (nearest_normalize n.toUInt64.toNat 0 .positive).rounds
      rw [zpow_zero, mul_one, Int.cast_natCast] at nearest
      change Rounds (n.toUInt64.toNat : ℚ) n.toUInt64.toFloat32 at nearest
      rwa [whole] at nearest
    have finite : n.toUInt64.toFloat32.isFinite = true := by
      apply converted.finite_iff.mpr
      have : (n : ℚ) < 2 ^ 23 := by exact_mod_cast small.1
      rw [InRange, Nat.abs_cast]
      linarith
    have one : value (Float32.ofBits 0x3F800000) = 1 := by decide +kernel
    have product := rounds_mul finite (show (Float32.ofBits 0x3F800000).isFinite = true by decide)
    rw [one, mul_one, converted.value finite, rounded_exact exact] at product
    exact product
  · next large =>
    exact (nearest_scientific (by omega)).rounds

theorem value_ofNat {n : ℕ} (small : n < 2 ^ 127) :
    (Float32.ofNat n).isFinite = true ∧ value (Float32.ofNat n) = rounded n := by
  have range : InRange n := by
    have : (n : ℚ) < 2 ^ 127 := by exact_mod_cast small
    rw [InRange, Nat.abs_cast]
    linarith
  have finite := (rounds_ofNat n).finite_iff.mpr range
  exact ⟨finite, (rounds_ofNat n).value finite⟩

theorem rounded_one : rounded 1 = 1 := rounded_exact ⟨1, 0, by norm_num, by norm_num, by norm_num⟩

/-- A number divided by one that is not less lies between nothing and one, also after rounding. -/
theorem value_share (left : x.isFinite = true) (right : y.isFinite = true) (pos : 0 < value y)
    (nonneg : 0 ≤ value x) (le : value x ≤ value y) :
    (x / y).isFinite = true ∧ 0 ≤ value (x / y) ∧ value (x / y) ≤ 1 := by
  have quotient := rounds_div left right pos.ne'
  have low : 0 ≤ value x / value y := div_nonneg nonneg pos.le
  have high : value x / value y ≤ 1 := (div_le_one pos).mpr le
  have result : (x / y).isFinite = true := by
    apply quotient.finite_iff.mpr
    rw [InRange, abs_of_nonneg low]
    linarith
  rw [quotient.value result]
  refine ⟨result, rounded_nonneg low, ?_⟩
  rw [← rounded_one]
  exact rounded_mono high

/-- A part of a whole lies between nothing and all of it, also after rounding. -/
theorem value_part {i n : ℕ} (less : i < n) (small : n < 2 ^ 127) :
    (Float32.ofNat i / Float32.ofNat n).isFinite = true ∧ 0 ≤ value (Float32.ofNat i / Float32.ofNat n) ∧
      value (Float32.ofNat i / Float32.ofNat n) ≤ 1 := by
  obtain ⟨finite, numerator⟩ := value_ofNat (less.trans small)
  obtain ⟨finite', denominator⟩ := value_ofNat small
  have one : (1 : ℚ) ≤ rounded n := by
    rw [← rounded_one]
    exact rounded_mono (by exact_mod_cast (by omega : 1 ≤ n))
  have nonneg : 0 ≤ rounded (i : ℚ) := rounded_nonneg (by positivity)
  have le : rounded (i : ℚ) ≤ rounded n := rounded_mono (by exact_mod_cast less.le)
  rw [← denominator] at one le
  rw [← numerator] at nonneg le
  exact value_share finite finite' (by linarith) nonneg le

end Toolpath.Single

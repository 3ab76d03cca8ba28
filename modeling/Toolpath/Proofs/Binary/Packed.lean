import Mathlib
import Toolpath.Proofs.Binary.Bits
import Toolpath.Proofs.Binary.Nearest
import Toolpath.Proofs.Binary.Sums

/-!
# The value of a number

A finite number of single precision stands for a rational number, and comparing numbers compares what they
stand for. `Canonical` is the form in which the bits of a number are taken apart; put together again, a
canonical result is the number itself, or an infinity where its exponent is too large.
-/

namespace Toolpath.Single

open Binary
open Float.Model (Format UnpackedFloat)
open Float.Model.UnpackedFloat (Sign packComponents unpackExponent unpackMantissa unpackSign
  unpackExponent_packComponents unpackMantissa_packComponents unpackSign_packComponents)

/-! ### The parts of a number -/

def signed : Sign → ℚ → ℚ
  | .negative, v => -v
  | .positive, v => v

def valueOf : UnpackedFloat → ℚ
  | .finite s m e _ => signed s (m * 2 ^ e)
  | _ => 0

/-- What a finite number stands for. An infinity, and what is not a number, have the value zero. -/
def value (x : Float32) : ℚ := valueOf x.toModel.unpack

/-- In full width, or below full width at the least exponent. -/
def Canonical : UnpackedFloat → Prop
  | .finite _ m e _ => m < 2 ^ 24 ∧ -149 ≤ e ∧ (2 ^ 23 ≤ m ∨ e = -149)
  | _ => True

theorem abs_signed (s : Sign) (v : ℚ) : |signed s v| = |v| := by cases s <;> simp [signed]

theorem signed_neg (s : Sign) (v : ℚ) : signed (-s) v = -signed s v := by
  cases s
  · exact (neg_neg v).symm
  · rfl

theorem rounded_signed (s : Sign) (v : ℚ) : rounded (signed s v) = signed s (rounded v) := by
  cases s
  · exact rounded_neg v
  · rfl

section Unpacked

variable {u w : UnpackedFloat} {s : Sign} {m : ℕ} {e : ℤ} {pos : 0 < m}

theorem toNat_implicit (b : BitVec 23) : (1#1 ++ b).toNat = 2 ^ 23 + b.toNat := by
  rw [BitVec.toNat_append, ← Nat.shiftLeft_add_eq_or_of_lt b.isLt]
  rfl

theorem canonical_of_unpack {b : BitVec Format.binary32.numBits}
    (unpacked : UnpackedFloat.unpack .binary32 b = .finite s m e pos) :
    Canonical (.finite s m e pos) ∧ e ≤ 104 := by
  have mantissa : (@unpackMantissa .binary32 b).toNat < 2 ^ 23 := (unpackMantissa b).isLt
  have field : (@unpackExponent .binary32 b).toNat < 2 ^ 8 := (unpackExponent b).isLt
  have bias : Format.binary32.exponentBias = 127 := rfl
  unfold UnpackedFloat.unpack at unpacked
  dsimp only at unpacked
  split at unpacked
  · split at unpacked <;> cases unpacked
  · next notAll =>
    split at unpacked
    · next least =>
      split at unpacked
      · cases unpacked
      · cases unpacked
        rw [least, bias]
        exact ⟨⟨by omega, by decide, Or.inr rfl⟩, by decide⟩
    · next some =>
      cases unpacked
      have full := toNat_implicit (unpackMantissa b)
      have some : (@unpackExponent .binary32 b).toNat ≠ 0 := fun zero => some (BitVec.eq_of_toNat_eq zero)
      have notAll : (@unpackExponent .binary32 b).toNat ≠ 255 := fun ones => notAll (BitVec.eq_of_toNat_eq ones)
      rw [bias]
      exact ⟨⟨by omega, by omega, Or.inl (by omega)⟩, by omega⟩

theorem canonical_unpack (b : BitVec Format.binary32.numBits) : Canonical (UnpackedFloat.unpack .binary32 b) := by
  cases unpacked : UnpackedFloat.unpack .binary32 b with
  | finite s m e pos => exact (canonical_of_unpack unpacked).1
  | _ => trivial

theorem ofBitVec_toBitVec (s : Sign) : Sign.ofBitVec s.toBitVec = s := by cases s <;> rfl

theorem unpack_infinity (s : Sign) :
    UnpackedFloat.unpack .binary32 (UnpackedFloat.packedInfinity .binary32 s) = .infinity s := by
  unfold UnpackedFloat.unpack UnpackedFloat.packedInfinity
  simp only [unpackExponent_packComponents, unpackMantissa_packComponents, unpackSign_packComponents,
    ofBitVec_toBitVec]
  rfl

/-- Parts with an exponent are a number in full width, of which the leading bit is left out. -/
theorem unpack_full {k : ℕ} (s : Sign) (pos : 0 < m) (some : 0 < k) (notAll : k < 255) (full : 2 ^ 23 ≤ m)
    (narrow : m < 2 ^ 24) :
    UnpackedFloat.unpack .binary32 (packComponents .binary32 s (BitVec.ofNat 8 k) (BitVec.ofNat 23 m))
      = .finite s m (k - 150) pos := by
  have exponent : (BitVec.ofNat 8 k).toNat = k := by
    rw [BitVec.toNat_ofNat]
    omega
  have field (b : BitVec 8) (other : k ≠ b.toNat) : BitVec.ofNat 8 k ≠ b := by
    rintro rfl
    exact other exponent.symm
  have mantissa : (1#1 ++ BitVec.ofNat 23 m).toNat = m := by
    rw [toNat_implicit, BitVec.toNat_ofNat]
    omega
  unfold UnpackedFloat.unpack
  simp only [unpackExponent_packComponents, unpackMantissa_packComponents, unpackSign_packComponents,
    ofBitVec_toBitVec]
  rw [if_neg (field (-1#8) notAll.ne), if_neg (field 0#8 some.ne')]
  simp only [mantissa, exponent]
  rfl

/-- Parts without an exponent are a number below full width. -/
theorem unpack_below (s : Sign) (pos : 0 < m) (below : m < 2 ^ 23) :
    UnpackedFloat.unpack .binary32 (packComponents .binary32 s 0#8 (BitVec.ofNat 23 m)) = .finite s m (-149) pos := by
  have mantissa : (BitVec.ofNat 23 m).toNat = m := by
    rw [BitVec.toNat_ofNat]
    omega
  have some : BitVec.ofNat 23 m ≠ 0#23 := by
    intro zero
    rw [zero] at mantissa
    exact pos.ne mantissa
  unfold UnpackedFloat.unpack
  simp only [unpackExponent_packComponents, unpackMantissa_packComponents, unpackSign_packComponents,
    ofBitVec_toBitVec]
  rw [if_neg (by decide), if_pos trivial, dif_neg some]
  simp only [mantissa]
  rfl

theorem unpack_pack (canonical : Canonical (.finite s m e pos)) :
    UnpackedFloat.unpack .binary32 (UnpackedFloat.pack .binary32 (.finite s m e pos)) =
      if e ≤ 104 then .finite s m e pos else .infinity s := by
  obtain ⟨narrow, lowest, full⟩ := canonical
  obtain ⟨k, exponent⟩ : ∃ k : ℕ, e = k - 150 := ⟨(e + 150).toNat, by omega⟩
  have field : (e + (Format.binary32.exponentBias : ℤ) + (Format.binary32.mantissaBitsWithoutImplicit : ℤ)).toNat = k := by
    simp only [Format.exponentBias]
    omega
  unfold UnpackedFloat.pack
  dsimp only
  rw [field]
  by_cases small : e ≤ 104
  · rw [if_pos small, if_neg (show ¬ 2 ^ 8 ≤ k + 1 by omega)]
    by_cases wide : 2 ^ 23 ≤ m
    · have log : m.log2 = 23 := (Nat.log2_eq_iff pos.ne').mpr ⟨wide, narrow⟩
      rw [if_pos (by rw [log]; rfl), exponent]
      exact unpack_full s pos (by omega) (by omega) wide narrow
    · have log : m.log2 < 23 := (Nat.log2_lt pos.ne').mpr (not_le.mp wide)
      rw [if_neg (show ¬ m.log2 + 1 = Format.binary32.mantissaBits by
        simp only [Format.mantissaBits]; omega), full.resolve_left wide]
      exact unpack_below s pos (not_le.mp wide)
  · rw [if_neg small, if_pos (show 2 ^ 8 ≤ k + 1 by omega)]
    exact unpack_infinity s

theorem abs_valueOf_finite (s : Sign) (m : ℕ) (e : ℤ) (pos : 0 < m) :
    |valueOf (.finite s m e pos)| = m * 2 ^ e := by
  have nonneg : (0 : ℚ) ≤ m * 2 ^ e := mul_nonneg (Nat.cast_nonneg m) (two_zpow_pos e).le
  change |signed s (m * 2 ^ e)| = _
  rw [abs_signed, abs_of_nonneg nonneg]

/-- The exponent of a canonical number tells whether it is in range. -/
theorem abs_valueOf_lt_iff (canonical : Canonical (.finite s m e pos)) :
    |valueOf (.finite s m e pos)| < 2 ^ 128 ↔ e ≤ 104 := by
  obtain ⟨narrow, lowest, full⟩ := canonical
  rw [abs_valueOf_finite]
  have narrow : (m : ℚ) < 2 ^ 24 := by exact_mod_cast narrow
  constructor
  · intro less
    by_contra large
    have full : (2 : ℚ) ^ 23 ≤ m := by exact_mod_cast full.resolve_right (by omega)
    have : (2 : ℚ) ^ 23 * 2 ^ (105 : ℤ) ≤ m * 2 ^ e :=
      mul_le_mul full (zpow_le_zpow_right₀ (by norm_num) (by omega)) (two_zpow_pos _).le (by positivity)
    norm_num at this less
    linarith
  · intro small
    have : m * (2 : ℚ) ^ e < 2 ^ 24 * 2 ^ (104 : ℤ) :=
      mul_lt_mul narrow (zpow_le_zpow_right₀ (by norm_num) small) (two_zpow_pos e) (by positivity)
    norm_num at this ⊢
    linarith

theorem exact_valueOf (canonical : Canonical u) : Exact (valueOf u) := by
  have zero : Exact 0 := ⟨0, 0, by norm_num, by norm_num, by norm_num⟩
  cases u with
  | finite s m e pos =>
    obtain ⟨narrow, lowest, -⟩ := canonical
    have exact : Exact (m * 2 ^ e) := ⟨m, e, by rw [Nat.abs_cast]; exact_mod_cast narrow, lowest, rfl⟩
    cases s
    · exact exact_neg exact
    · exact exact
  | _ => exact zero

/-! ### Comparing -/

variable {n : ℕ} {f : ℤ}

/-- Of two canonical numbers the one with the larger exponent is the larger one. -/
theorem canonical_lt (narrow : m < 2 ^ 24) (full : 2 ^ 23 ≤ n) (less : e < f) :
    (m : ℚ) * 2 ^ e < n * 2 ^ f := by
  have narrow : (m : ℚ) < 2 ^ 24 := by exact_mod_cast narrow
  have full : (2 : ℚ) ^ 23 ≤ n := by exact_mod_cast full
  calc (m : ℚ) * 2 ^ e < 2 ^ 24 * 2 ^ e := mul_lt_mul_of_pos_right narrow (two_zpow_pos e)
    _ = 2 ^ 23 * 2 ^ (e + 1) := by
      rw [two_zpow_succ]
      ring
    _ ≤ n * 2 ^ f := mul_le_mul full (zpow_le_zpow_right₀ (by norm_num) less) (two_zpow_pos _).le (by positivity)

theorem compare_canonical {k : 0 < n} {t : Sign} (left : Canonical (.finite s m e pos))
    (right : Canonical (.finite t n f k)) :
    (compare e f).then (compare m n) = compare ((m : ℚ) * 2 ^ e) (n * 2 ^ f) := by
  obtain ⟨narrow, lowest, full⟩ := left
  obtain ⟨narrow', lowest', full'⟩ := right
  rcases lt_trichotomy e f with less | rfl | more
  · rw [compare_lt_iff_lt.mpr less, compare_lt_iff_lt.mpr (canonical_lt narrow (full'.resolve_right (by omega)) less)]
    rfl
  · rw [compare_eq_iff_eq.mpr rfl]
    have scale := two_zpow_pos e
    rcases lt_trichotomy m n with less | rfl | more
    · have : (m : ℚ) < n := by exact_mod_cast less
      rw [compare_lt_iff_lt.mpr less, compare_lt_iff_lt.mpr (mul_lt_mul_of_pos_right this scale)]
      rfl
    · rw [compare_eq_iff_eq.mpr rfl, compare_eq_iff_eq.mpr rfl]
      rfl
    · have : (n : ℚ) < m := by exact_mod_cast more
      rw [compare_gt_iff_gt.mpr more, compare_gt_iff_gt.mpr (mul_lt_mul_of_pos_right this scale)]
      rfl
  · rw [compare_gt_iff_gt.mpr more, compare_gt_iff_gt.mpr (canonical_lt narrow' (full.resolve_right (by omega)) more)]
    rfl

theorem compare_neg (a b : ℚ) : compare (-a) (-b) = (compare a b).swap := by
  rcases lt_trichotomy a b with less | rfl | more
  · rw [compare_lt_iff_lt.mpr less, compare_gt_iff_gt.mpr (neg_lt_neg less)]
    rfl
  · rw [compare_eq_iff_eq.mpr rfl, compare_eq_iff_eq.mpr rfl]
    rfl
  · rw [compare_gt_iff_gt.mpr more, compare_lt_iff_lt.mpr (neg_lt_neg more)]
    rfl

theorem compare_eq (left : Canonical u) (right : Canonical w) (finite : u.isFinite = true) (finite' : w.isFinite = true) :
    u.compare w = some (compare (valueOf u) (valueOf w)) := by
  have size (m : ℕ) (e : ℤ) (pos : 0 < m) : (0 : ℚ) < m * 2 ^ e :=
    mul_pos (Nat.cast_pos.mpr pos) (two_zpow_pos e)
  cases u with
  | infinity | notANumber => cases finite
  | zero s =>
    cases w with
    | infinity | notANumber => cases finite'
    | zero t => rfl
    | finite t n f k =>
      cases t with
      | negative => exact congrArg some (compare_gt_iff_gt.mpr (neg_neg_of_pos (size n f k))).symm
      | positive => exact congrArg some (compare_lt_iff_lt.mpr (size n f k)).symm
  | finite s m e pos =>
    cases w with
    | infinity | notANumber => cases finite'
    | zero t =>
      cases s with
      | negative => exact congrArg some (compare_lt_iff_lt.mpr (neg_neg_of_pos (size m e pos))).symm
      | positive => exact congrArg some (compare_gt_iff_gt.mpr (size m e pos)).symm
    | finite t n f k =>
      have same := compare_canonical left right
      have first := size m e pos
      have second := size n f k
      cases s with
      | negative =>
        cases t with
        | negative =>
          change some ((compare e f).then (compare m n)).swap = some (compare (-(_ : ℚ)) (-_))
          rw [same, compare_neg]
        | positive => exact congrArg some (compare_lt_iff_lt.mpr ((neg_neg_of_pos first).trans second)).symm
      | positive =>
        cases t with
        | negative => exact congrArg some (compare_gt_iff_gt.mpr ((neg_neg_of_pos second).trans first)).symm
        | positive => exact congrArg some same

end Unpacked

/-! ### Numbers -/

variable {x y : Float32}

theorem canonical_model (x : Float32) : Canonical x.toModel.unpack := canonical_unpack _

theorem exact_value (x : Float32) : Exact (value x) := exact_valueOf (canonical_model x)

theorem abs_value_lt (x : Float32) : |value x| < 2 ^ 128 := by
  unfold value
  cases unpacked : x.toModel.unpack with
  | finite s m e pos =>
    obtain ⟨canonical, small⟩ := canonical_of_unpack unpacked
    exact (abs_valueOf_lt_iff canonical).mpr small
  | _ => simp [valueOf]

theorem lt_iff_model : x < y ↔ x.toModel.unpack.lt y.toModel.unpack = true := decide_eq_true_iff

theorem le_iff_model : x ≤ y ↔ x.toModel.unpack.le y.toModel.unpack = true := decide_eq_true_iff

section Finite

variable (left : x.isFinite = true) (right : y.isFinite = true)
include left right

theorem compare_model : x.toModel.unpack.compare y.toModel.unpack = some (compare (value x) (value y)) :=
  compare_eq (canonical_model x) (canonical_model y) left right

theorem lt_iff : x < y ↔ value x < value y := by
  rw [lt_iff_model, UnpackedFloat.lt, compare_model left right]
  simp [compare_lt_iff_lt]

theorem le_iff : x ≤ y ↔ value x ≤ value y := by
  rw [le_iff_model, UnpackedFloat.le, compare_model left right, Option.any_some, Ordering.isLE_iff_ne_gt,
    compare_gt_iff_gt, not_lt]

theorem le_of_not_lt (notLess : ¬ x < y) : y ≤ x := by
  rw [lt_iff left right, not_lt] at notLess
  exact (le_iff right left).mpr notLess

end Finite

end Toolpath.Single

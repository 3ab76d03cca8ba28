import Mathlib
import Toolpath.Proofs.Binary.Arithmetic

/-!
# Quotients in single precision

A quotient is rounded twice in this library: `Format.nearest` computes with whole numbers, and `rounded` is what its
result should be. They agree, so that `Single.ofRatio` gives the value of a quotient rounded, with the sign that is
asked for, or an infinity for a value out of range. A finite number is known by its sign and its value.
-/

namespace Toolpath.Single

open Binary (Magnitude Ratio single two_zpow_pos two_zpow_succ)
open Float.Model (UnpackedFloat)
open Float.Model.UnpackedFloat (Sign packComponents unpackSign unpackSign_packComponents)
open Double (sign)

/-! ### The nearest magnitude -/

theorem roundEven_ratio {r : Ratio} (den : 0 < r.den) : roundEven r.value = r.round := by
  have mantissa := roundedMantissa_eq r.num den
  rw [Double.roundedMantissa_extended r.num den] at mantissa
  rw [Ratio.value, ← mantissa, Ratio.round]
  split_ifs <;> omega

theorem unit_single {r : Ratio} (num : 0 < r.num) (den : 0 < r.den) : single.unit r = unitOf r.value := by
  obtain ⟨e, unit, above, below⟩ := Binary.Format.exists_unit single (by decide) num den
  change 2 ^ 23 * (2 : ℚ) ^ e ≤ r.value at above
  change r.value < 2 ^ 24 * (2 : ℚ) ^ e at below
  change single.unit r = max e (-149) at unit
  have pos : 0 < r.value := lt_of_lt_of_le (mul_pos (by norm_num) (two_zpow_pos e)) above
  rw [unit, eq_comm]
  apply unitOf_eq pos.ne'
  · rw [abs_of_pos pos]
    refine below.trans_le (mul_le_mul_of_nonneg_left ?_ (by norm_num))
    exact zpow_le_zpow_right₀ (by norm_num) (le_max_left _ _)
  · rcases le_or_gt e (-149) with least | normal
    · exact Or.inr (max_eq_right least)
    · rw [max_eq_left normal.le, abs_of_pos pos]
      exact Or.inl above
  · exact le_max_right _ _

/-- A magnitude of single precision, apart from its greatest exponent. -/
structure Full (m : Magnitude) : Prop where
  narrow : m.significand < 2 ^ 24
  lowest : -149 ≤ m.exponent
  full : 2 ^ 23 ≤ m.significand ∨ m.exponent = -149

/-- The magnitude nearest to a quotient has its value rounded, and is left out if its exponent is too large. -/
theorem nearest_single {r : Ratio} (den : 0 < r.den) :
    ∃ m, Full m ∧ m.value = rounded r.value ∧ single.nearest r = if 104 < m.exponent then none else some m := by
  rcases Nat.eq_zero_or_pos r.num with zero | num
  · refine ⟨⟨0, -149⟩, ⟨by norm_num, le_rfl, Or.inr rfl⟩, ?_, ?_⟩
    · rw [Ratio.value, zero, Nat.cast_zero, zero_div, rounded_zero, Magnitude.value, Nat.cast_zero, zero_mul]
    · rw [Binary.Format.nearest, if_pos zero, if_neg (by norm_num)]
      rfl
  have pos : 0 < r.value := div_pos (Nat.cast_pos.mpr num) (Nat.cast_pos.mpr den)
  have units : ((r.shift (unitOf r.value)).round : ℤ) = roundEven (r.value / 2 ^ unitOf r.value) := by
    rw [← Ratio.value_shift, roundEven_ratio (Ratio.shift_den_pos den _)]
  have most : (r.shift (unitOf r.value)).round ≤ 2 ^ 24 := by
    have := roundEven_units_le r.value
    omega
  have full : 2 ^ 23 ≤ (r.shift (unitOf r.value)).round ∨ unitOf r.value = -149 := by
    rcases (lowest_le_unitOf r.value).lt_or_eq with normal | least
    · left
      have := le_roundEven_units pos normal
      omega
    · exact Or.inr least.symm
  have lowest := lowest_le_unitOf r.value
  have value : rounded r.value = (r.shift (unitOf r.value)).round * 2 ^ unitOf r.value := by
    rw [rounded, ← units, Int.cast_natCast]
  unfold Binary.Format.nearest
  dsimp only
  rw [if_neg num.ne', unit_single num den, value]
  generalize (r.shift (unitOf r.value)).round = s at most full
  generalize unitOf r.value = t at full lowest
  change ∃ m, Full m ∧ m.value = s * 2 ^ t ∧
    (if 104 < (if s = 2 ^ 24 then Magnitude.mk (2 ^ 23) (t + 1) else ⟨s, t⟩).exponent then none
      else some (if s = 2 ^ 24 then Magnitude.mk (2 ^ 23) (t + 1) else ⟨s, t⟩)) = _
  by_cases carry : s = 2 ^ 24
  · refine ⟨⟨2 ^ 23, t + 1⟩, ⟨by norm_num, by dsimp only; omega, Or.inl le_rfl⟩, ?_, ?_⟩
    · rw [carry, Magnitude.value, two_zpow_succ]
      push_cast
      ring
    · rw [if_pos carry]
  · refine ⟨⟨s, t⟩, ⟨by dsimp only; omega, lowest, full⟩, rfl, ?_⟩
    rw [if_neg carry]

theorem Full.value_lt {m : Magnitude} (full : Full m) (small : m.exponent ≤ 104) : m.value < 2 ^ 128 := by
  have narrow : (m.significand : ℚ) < 2 ^ 24 := by exact_mod_cast full.narrow
  calc m.value < 2 ^ 24 * 2 ^ m.exponent := mul_lt_mul_of_pos_right narrow (two_zpow_pos _)
    _ ≤ 2 ^ 24 * 2 ^ (104 : ℤ) :=
      mul_le_mul_of_nonneg_left (zpow_le_zpow_right₀ (by norm_num) small) (by norm_num)
    _ = 2 ^ 128 := by norm_num

theorem nearest_of_large {r : Ratio} (den : 0 < r.den) (large : ¬ InRange r.value) : single.nearest r = none := by
  obtain ⟨m, full, value, nearest⟩ := nearest_single den
  rw [nearest, if_pos]
  by_contra small
  have less := full.value_lt (not_lt.mp small)
  have nonneg : 0 ≤ r.value := div_nonneg (Nat.cast_nonneg _) (Nat.cast_nonneg _)
  rw [value, ← abs_of_nonneg (rounded_nonneg nonneg), abs_rounded_lt_iff] at less
  exact large less

/-- Less than half of the least magnitude rounds to zero. -/
theorem rounded_of_small {v : ℚ} (pos : 0 < v) (small : v < 2 ^ (-150 : ℤ)) : rounded v = 0 := by
  have unit : unitOf v = -149 := by
    refine unitOf_eq pos.ne' ?_ (Or.inr rfl) le_rfl
    rw [abs_of_pos pos]
    norm_num at small ⊢
    linarith
  have none : roundEven (v / 2 ^ (-149 : ℤ)) = 0 := by
    apply roundEven_eq_of_lt
    have scaled : v / 2 ^ (-149 : ℤ) < 1 / 2 := by
      rw [div_lt_iff₀ (two_zpow_pos _)]
      norm_num at small ⊢
      linarith
    have nonneg : 0 ≤ v / 2 ^ (-149 : ℤ) := div_nonneg pos.le (two_zpow_pos _).le
    rw [Int.cast_zero, zero_sub, abs_neg, abs_of_nonneg nonneg]
    exact scaled
  rw [rounded, unit, none, Int.cast_zero, zero_mul]

theorem nearest_of_small {r : Ratio} (den : 0 < r.den) (pos : 0 < r.value) (small : r.value < 2 ^ (-150 : ℤ)) :
    single.nearest r = some ⟨0, -149⟩ := by
  obtain ⟨⟨s, e⟩, full, value, nearest⟩ := nearest_single den
  rw [rounded_of_small pos small, Magnitude.value, mul_eq_zero_iff_right (two_zpow_pos e).ne', Nat.cast_eq_zero] at value
  obtain rfl : s = 0 := value
  obtain rfl : e = -149 := full.full.resolve_left (by norm_num)
  rw [nearest, if_neg (by norm_num)]

/-! ### Signs -/

theorem toNat_unpackSign (b : BitVec Float.Model.Format.binary32.numBits) :
    (unpackSign b).toNat = b.toNat / 2 ^ 31 % 2 := by
  simp only [unpackSign, BitVec.toNat_cast, BitVec.extractLsb_toNat, Nat.shiftRight_eq_div_pow]

theorem ofBitVec_unpackSign (x : Float32) :
    Sign.ofBitVec (@unpackSign .binary32 x.toBits.toBitVec) = sign (isNegative x) := by
  have small : x.toBits.toBitVec.toNat < 2 ^ 32 := x.toBits.toBitVec.isLt
  have bit := toNat_unpackSign x.toBits.toBitVec
  have negative_iff : isNegative x = true ↔ 2 ^ 31 ≤ x.toBits.toBitVec.toNat := decide_eq_true_iff
  cases negative : isNegative x with
  | true =>
    have one : @unpackSign .binary32 x.toBits.toBitVec = 1#1 := BitVec.eq_of_toNat_eq (by
      have := negative_iff.mp negative
      rw [bit]
      change _ = 1
      omega)
    rw [one]
    rfl
  | false =>
    have zero : @unpackSign .binary32 x.toBits.toBitVec = 0#1 := BitVec.eq_of_toNat_eq (by
      have := mt negative_iff.mpr (by simp [negative])
      rw [bit]
      change _ = 0
      omega)
    rw [zero]
    rfl

/-- The sign of what is a number. -/
def HasSign (s : Sign) : UnpackedFloat → Prop
  | .finite t _ _ _ => t = s
  | .zero t => t = s
  | .infinity t => t = s
  | .notANumber => False

variable {u : UnpackedFloat} {s : Sign} {x y : Float32}

theorem hasSign_unpack (finite : x.isFinite = true) : HasSign (sign (isNegative x)) x.toModel.unpack := by
  rw [← ofBitVec_unpackSign]
  change (UnpackedFloat.unpack .binary32 x.toBits.toBitVec).isFinite = true at finite
  change HasSign _ (UnpackedFloat.unpack .binary32 x.toBits.toBitVec)
  unfold UnpackedFloat.unpack at finite ⊢
  dsimp only at finite ⊢
  split_ifs at finite ⊢
  all_goals first | rfl | cases finite

theorem unpackSign_pack_of_hasSign (signed : HasSign s u) : unpackSign (u.pack .binary32) = s.toBitVec := by
  cases u with
  | notANumber => cases signed
  | infinity t | zero t =>
    obtain rfl : t = s := signed
    exact unpackSign_packComponents _ _ _
  | finite t m e pos =>
    obtain rfl : t = s := signed
    unfold UnpackedFloat.pack
    dsimp only
    split_ifs <;> exact unpackSign_packComponents _ _ _

theorem isNegative_ofModel {negative : Bool} (signed : HasSign (sign negative) u) :
    isNegative (ofModel u) = negative := by
  have bit := ofBitVec_unpackSign (ofModel u)
  change Sign.ofBitVec (unpackSign (u.pack .binary32)) = _ at bit
  rw [unpackSign_pack_of_hasSign signed, ofBitVec_toBitVec] at bit
  cases negative <;> cases other : isNegative (ofModel u) <;> simp_all [sign]

/-- Magnitudes with the same value are the same. -/
theorem eq_of_canonical {m n : ℕ} {e f : ℤ} {pos : 0 < m} {k : 0 < n} {t : Sign}
    (left : Canonical (.finite s m e pos)) (right : Canonical (.finite t n f k))
    (same : (m : ℚ) * 2 ^ e = n * 2 ^ f) : m = n ∧ e = f := by
  have order := compare_canonical left right
  rw [compare_eq_iff_eq.mpr same, Ordering.then_eq_eq, compare_eq_iff_eq, compare_eq_iff_eq] at order
  exact order.symm

/-- A finite number is known by its sign and its value. -/
theorem eq_of_value (left : x.isFinite = true) (right : y.isFinite = true) (negative : isNegative x = isNegative y)
    (same : value x = value y) : x = y := by
  suffices parts : x.toModel.unpack = y.toModel.unpack by rw [← ofModel_unpack x, parts, ofModel_unpack]
  have leftSign := hasSign_unpack left
  have rightSign := hasSign_unpack right
  have leftCanonical := canonical_model x
  have rightCanonical := canonical_model y
  rw [negative] at leftSign
  unfold value at same
  change x.toModel.unpack.isFinite = true at left
  change y.toModel.unpack.isFinite = true at right
  generalize x.toModel.unpack = u at *
  generalize y.toModel.unpack = w at *
  have some (t : Sign) (m : ℕ) (e : ℤ) (pos : 0 < m) : valueOf (.finite t m e pos) ≠ 0 := by
    rw [← abs_pos, abs_valueOf_finite]
    exact mul_pos (Nat.cast_pos.mpr pos) (two_zpow_pos e)
  cases u with
  | infinity | notANumber => cases left
  | zero t =>
    cases w with
    | infinity | notANumber => cases right
    | zero t' => rw [show t = t' from leftSign.trans rightSign.symm]
    | finite t' n f k => exact absurd same.symm (some t' n f k)
  | finite t m e pos =>
    cases w with
    | infinity | notANumber => cases right
    | zero t' => exact absurd same (some t m e pos)
    | finite t' n f k =>
      obtain rfl : t = t' := leftSign.trans rightSign.symm
      have sizes := congrArg abs same
      rw [abs_valueOf_finite, abs_valueOf_finite] at sizes
      obtain ⟨rfl, rfl⟩ := eq_of_canonical leftCanonical rightCanonical sizes
      rfl

/-! ### Bits with a sign -/

theorem ofModel_congr {w : UnpackedFloat} (same : u.pack .binary32 = w.pack .binary32) : ofModel u = ofModel w := by
  simp only [ofModel, Float32.Model.pack, Float32.ofModel.injEq, Float32.Model.mk.injEq]
  exact congrArg UInt32.ofBitVec same

theorem ofModel_large {m : ℕ} {e : ℤ} (pos : 0 < m) (large : 104 < e) :
    ofModel (.finite s m e pos) = ofModel (.infinity s) := by
  refine ofModel_congr ?_
  have overflow : 2 ^ 8 ≤ (e + (Float.Model.Format.binary32.exponentBias : ℤ) +
      (Float.Model.Format.binary32.mantissaBitsWithoutImplicit : ℤ)).toNat + 1 := by
    simp only [Float.Model.Format.exponentBias]
    omega
  unfold UnpackedFloat.pack
  dsimp only
  rw [if_pos overflow]

/-- The number with these bits and a sign in front of them. -/
def withSign (negative : Bool) (bits : ℕ) : Float32 :=
  Float32.ofBits (UInt32.ofNat (if negative then bits + 0x80000000 else bits))

theorem toNat_packComponents (negative : Bool) (e : BitVec 8) (m : BitVec 23) :
    (packComponents .binary32 (sign negative) e m).toNat = negative.toNat * 2 ^ 31 + e.toNat * 2 ^ 23 + m.toNat :=
  Double.toNat_parts .binary32 negative e m

theorem withSign_eq (negative : Bool) (e : BitVec 8) (m : BitVec 23) :
    withSign negative (e.toNat * 2 ^ 23 + m.toNat) =
      ofModel (UnpackedFloat.unpack .binary32 (packComponents .binary32 (sign negative) e m)) := by
  have bits : (if negative then e.toNat * 2 ^ 23 + m.toNat + 0x80000000 else e.toNat * 2 ^ 23 + m.toNat) =
      (packComponents .binary32 (sign negative) e m).toNat := by
    rw [toNat_packComponents]
    cases negative with
    | false =>
      simp only [Bool.false_eq_true, if_false, Bool.toNat_false]
      omega
    | true =>
      simp only [if_true, Bool.toNat_true]
      omega
  rw [withSign, bits]
  change ofModel (UnpackedFloat.unpack .binary32 (BitVec.ofNat Float.Model.Format.binary32.numBits _)) = _
  rw [BitVec.ofNat_toNat, BitVec.setWidth_eq]

theorem withSign_infinity (negative : Bool) : withSign negative 0x7F800000 = ofModel (.infinity (sign negative)) := by
  have packed := withSign_eq negative (-1#8) 0#23
  rw [show packComponents .binary32 (sign negative) (-1#8) 0#23 = UnpackedFloat.packedInfinity .binary32 (sign negative)
    from rfl, unpack_infinity] at packed
  exact packed

theorem withSign_zero (negative : Bool) : withSign negative 0 = ofModel (.zero (sign negative)) := by
  cases negative <;> rfl

theorem withSign_encode {m : Magnitude} (full : Full m) (pos : 0 < m.significand) (small : m.exponent ≤ 104)
    (negative : Bool) :
    withSign negative (single.encode m) = ofModel (.finite (sign negative) m.significand m.exponent pos) := by
  obtain ⟨narrow, lowest, full⟩ := full
  have encoded : single.encode m =
      if m.significand < 2 ^ 23 then m.significand
      else (m.exponent + 150).toNat * 2 ^ 23 + (m.significand - 2 ^ 23) := by
    have field : (m.exponent - -149 + 1).toNat = (m.exponent + 150).toNat := by omega
    simp only [Binary.Format.encode, single, Nat.shiftLeft_eq, one_mul, field]
  rw [encoded]
  have mantissa : (BitVec.ofNat 23 m.significand).toNat = m.significand % 2 ^ 23 := BitVec.toNat_ofNat _ _
  by_cases short : m.significand < 2 ^ 23
  · have least : m.exponent = -149 := full.resolve_left (by omega)
    have packed := withSign_eq negative 0#8 (BitVec.ofNat 23 m.significand)
    rw [unpack_below _ pos short, mantissa, Nat.mod_eq_of_lt short, ← least] at packed
    rw [if_pos short, ← packed]
    simp
  · obtain ⟨k, exponent⟩ : ∃ k : ℕ, m.exponent = k - 150 := ⟨(m.exponent + 150).toNat, by omega⟩
    have field : (BitVec.ofNat 8 k).toNat = k := by
      rw [BitVec.toNat_ofNat]
      omega
    have packed := withSign_eq negative (BitVec.ofNat 8 k) (BitVec.ofNat 23 m.significand)
    rw [unpack_full _ pos (by omega) (by omega) (not_lt.mp short) narrow, mantissa, field, ← exponent] at packed
    have index : (m.exponent + 150).toNat = k := by omega
    have fraction : m.significand - 2 ^ 23 = m.significand % 2 ^ 23 := by omega
    rw [if_neg short, index, fraction]
    exact packed

/-! ### Quotients -/

theorem ofRatio_eq (negative : Bool) (r : Ratio) :
    ofRatio negative r = withSign negative ((single.nearest r).elim 0x7F800000 single.encode) := by
  unfold ofRatio
  cases single.nearest r <;> rfl

/-- A quotient is rounded, and has the sign that is asked for. -/
theorem rounds_ofRatio {r : Ratio} (den : 0 < r.den) (negative : Bool) :
    Rounds (signed (sign negative) r.value) (ofRatio negative r) ∧ isNegative (ofRatio negative r) = negative := by
  obtain ⟨m, full, value, nearest⟩ := nearest_single den
  have goal : rounded (signed (sign negative) r.value) = signed (sign negative) m.value := by
    rw [rounded_signed, value]
  rw [ofRatio_eq, nearest]
  rcases Nat.eq_zero_or_pos m.significand with zero | pos
  · have least : m.exponent = -149 := full.full.resolve_left (by omega)
    have bits : single.encode m = 0 := by simp [Binary.Format.encode, zero, single]
    rw [if_neg (by omega), Option.elim_some, bits, withSign_zero]
    refine ⟨Nearest.rounds ⟨trivial, rfl, ?_⟩, isNegative_ofModel rfl⟩
    rw [goal, Magnitude.value, zero, Nat.cast_zero, zero_mul]
    cases negative
    · rfl
    · exact neg_zero.symm
  · have rounds : Rounds (signed (sign negative) r.value)
        (ofModel (.finite (sign negative) m.significand m.exponent pos)) :=
      Nearest.rounds ⟨⟨full.narrow, full.lowest, full.full⟩, rfl, goal.symm⟩
    have packed : withSign negative ((if 104 < m.exponent then none else some m).elim 0x7F800000 single.encode) =
        ofModel (.finite (sign negative) m.significand m.exponent pos) := by
      split
      · next large =>
        rw [Option.elim_none, withSign_infinity, ofModel_large pos large]
      · next small =>
        exact withSign_encode full pos (not_lt.mp small) negative
    rw [packed]
    exact ⟨rounds, isNegative_ofModel rfl⟩

end Toolpath.Single

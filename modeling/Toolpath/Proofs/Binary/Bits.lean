import Toolpath.Binary.Double
import Toolpath.Proofs.Binary.Value

/-!
# Numbers and their bits

A finite number is its sign and its magnitude, and a magnitude that fits its format comes back from its bits.
-/

namespace Toolpath

namespace Binary.Format

variable {f : Format} {m : Magnitude} {bits : ℕ}

/-- The bits of finite magnitudes end here. -/
def limit (f : Format) : ℕ := (f.highest - f.lowest + 2).toNat * 2 ^ (f.precision - 1)

theorem encode_decode (f : Format) (bits : ℕ) : f.encode (f.decode bits) = bits := by
  have pos : 0 < 2 ^ (f.precision - 1) := by positivity
  have parts := Nat.div_add_mod' bits (2 ^ (f.precision - 1))
  have rest := Nat.mod_lt bits pos
  unfold encode decode
  simp only [Nat.shiftLeft_eq, one_mul]
  generalize 2 ^ (f.precision - 1) = half at *
  generalize bits / half = field at *
  generalize bits % half = fraction at *
  by_cases none : field = 0
  · rw [none, zero_mul, zero_add] at parts
    rw [if_pos none, if_pos rest, parts]
  · have index : (f.lowest + field - 1 - f.lowest + 1).toNat = field := by omega
    rw [if_neg none, if_neg (by dsimp only; omega)]
    dsimp only
    rw [Nat.add_sub_cancel_left, index, parts]

theorem fits_decode (wide : 0 < f.precision) (finite : bits < f.limit) (low : f.lowest ≤ f.highest) :
    f.Fits (f.decode bits) := by
  obtain ⟨k, precision⟩ : ∃ k, f.precision = k + 1 := ⟨f.precision - 1, by omega⟩
  have pos : 0 < 2 ^ k := by positivity
  have rest := Nat.mod_lt bits pos
  have double : 2 ^ (k + 1) = 2 * 2 ^ k := by rw [pow_succ, mul_comm]
  have field : bits / 2 ^ k < (f.highest - f.lowest + 2).toNat := by
    refine Nat.div_lt_of_lt_mul ?_
    rw [mul_comm]
    simpa only [limit, precision, Nat.add_sub_cancel] using finite
  unfold decode
  simp only [precision, Nat.add_sub_cancel, Nat.shiftLeft_eq, one_mul]
  generalize bits / 2 ^ k = field at *
  generalize bits % 2 ^ k = fraction at *
  split
  · refine ⟨?_, Or.inr rfl, le_refl _, low⟩
    rw [precision, double]
    dsimp only
    omega
  · refine ⟨?_, Or.inl ?_, ?_, ?_⟩
    · rw [precision, double]
      dsimp only
      omega
    · rw [precision, Nat.add_sub_cancel]
      exact Nat.le_add_right _ _
    · dsimp only
      omega
    · dsimp only
      omega

theorem encode_lt (wide : 0 < f.precision) (fits : f.Fits m) : f.encode m < f.limit := by
  obtain ⟨k, precision⟩ : ∃ k, f.precision = k + 1 := ⟨f.precision - 1, by omega⟩
  have pos : 0 < 2 ^ k := by positivity
  have narrow := fits.narrow
  have lowest := fits.lowest
  have highest := fits.highest
  rw [precision, pow_succ] at narrow
  unfold encode limit
  simp only [precision, Nat.add_sub_cancel, Nat.shiftLeft_eq, one_mul]
  generalize 2 ^ k = half at *
  obtain ⟨field, field_eq⟩ : ∃ n : ℕ, (n : ℤ) = m.exponent - f.lowest := ⟨(m.exponent - f.lowest).toNat, by omega⟩
  obtain ⟨last, last_eq⟩ : ∃ n : ℕ, (n : ℤ) = f.highest - f.lowest := ⟨(f.highest - f.lowest).toNat, by omega⟩
  have : (m.exponent - f.lowest + 1).toNat = field + 1 := by omega
  have : (f.highest - f.lowest + 2).toNat = last + 2 := by omega
  have le : (field + 2) * half ≤ (last + 2) * half := Nat.mul_le_mul_right _ (by omega)
  have next : (field + 2) * half = (field + 1) * half + half := by ring
  simp only [*]
  split
  · have : 2 * half ≤ (last + 2) * half := Nat.mul_le_mul_right _ (by omega)
    omega
  · omega

theorem decode_encode (wide : 0 < f.precision) (fits : f.Fits m) : f.decode (f.encode m) = m := by
  obtain ⟨k, precision⟩ : ∃ k, f.precision = k + 1 := ⟨f.precision - 1, by omega⟩
  have pos : 0 < 2 ^ k := by positivity
  obtain ⟨s, e⟩ := m
  have narrow := fits.narrow
  have full := fits.full
  have lowest := fits.lowest
  simp only [precision, pow_succ, Nat.add_sub_cancel] at narrow full lowest
  unfold encode decode
  simp only [precision, Nat.add_sub_cancel, Nat.shiftLeft_eq, one_mul]
  by_cases short : s < 2 ^ k
  · have least : e = f.lowest := full.resolve_left (by omega)
    rw [if_pos short, if_pos (Nat.div_eq_of_lt short), Nat.mod_eq_of_lt short, least]
  · have rest : s - 2 ^ k < 2 ^ k := by omega
    have field : ((e - f.lowest + 1).toNat * 2 ^ k + (s - 2 ^ k)) / 2 ^ k = (e - f.lowest + 1).toNat := by
      rw [mul_comm, Nat.mul_add_div pos, Nat.div_eq_of_lt rest, add_zero]
    rw [if_neg short, field, if_neg (by omega), mul_comm, Nat.mul_add_mod, Nat.mod_eq_of_lt rest]
    congr 1
    · omega
    · omega

end Binary.Format

open Binary
open Float.Model (UnpackedFloat)
open Float.Model.UnpackedFloat (Sign packComponents unpackExponent unpackMantissa unpackSign)

/-! ### Single-precision numbers -/

namespace Single

variable {x : Float32}

theorem toNat_unpackExponent (b : BitVec Float.Model.Format.binary32.numBits) :
    (unpackExponent b).toNat = b.toNat / 2 ^ 23 % 2 ^ 8 := by
  simp only [unpackExponent, BitVec.toNat_cast, BitVec.extractLsb_toNat, Nat.shiftRight_eq_div_pow]

theorem bits_lt_of_finite (finite : x.isFinite = true) : x.toBits.toNat % 2 ^ 31 < single.limit := by
  have field : @unpackExponent .binary32 x.toBits.toBitVec ≠ -1#8 := by
    intro all
    change (UnpackedFloat.unpack Float.Model.Format.binary32 x.toBits.toBitVec).isFinite = true at finite
    unfold UnpackedFloat.unpack at finite
    dsimp only at finite
    rw [if_pos all] at finite
    split at finite <;> cases finite
  have notAll : x.toBits.toBitVec.toNat / 2 ^ 23 % 2 ^ 8 ≠ 255 := by
    intro all
    refine field (BitVec.eq_of_toNat_eq ?_)
    rw [toNat_unpackExponent, all]
    rfl
  have limit : single.limit = 255 * 2 ^ 23 := by decide
  have := x.toBits.toBitVec.isLt
  rw [limit]
  change x.toBits.toBitVec.toNat % 2 ^ 31 < 255 * 2 ^ 23
  omega

theorem fits_magnitude (finite : x.isFinite = true) : single.Fits (magnitude x) :=
  Format.fits_decode (by decide) (bits_lt_of_finite finite) (by decide)

theorem isFinite_split (finite : x.isFinite = true) : x.isNaN = false ∧ x.isInf = false := by
  change x.toModel.unpack.isFinite = true at finite
  change x.toModel.unpack.isNaN = false ∧ x.toModel.unpack.isInf = false
  cases unpacked : x.toModel.unpack with
  | notANumber | infinity => simp [unpacked, UnpackedFloat.isFinite] at finite
  | zero | finite => exact ⟨rfl, rfl⟩

theorem ofBits_sign_magnitude (x : Float32) :
    Float32.ofBits (UInt32.ofNat (if isNegative x then single.encode (magnitude x) + 0x80000000
      else single.encode (magnitude x))) = x := by
  have small := x.toBits.toBitVec.isLt
  change x.toBits.toNat < 2 ^ 32 at small
  have bits : (if isNegative x then single.encode (magnitude x) + 0x80000000
      else single.encode (magnitude x)) = x.toBits.toNat := by
    rw [magnitude, Format.encode_decode]
    unfold isNegative
    split
    · next high =>
      have := of_decide_eq_true high
      omega
    · next low =>
      have : ¬ 0x80000000 ≤ x.toBits.toNat := by simpa using low
      omega
  rw [bits, UInt32.ofNat_toNat, Float32.ofBits_toBits]

theorem eq_zero (none : (magnitude x).significand = 0) : x = Float32.ofBits 0 ∨ x = Float32.ofBits 0x80000000 := by
  have bits : x.toBits.toNat % 0x80000000 = 0 := by
    rw [← Format.encode_decode single (x.toBits.toNat % 0x80000000)]
    change single.encode (magnitude x) = 0
    unfold Format.encode
    rw [none]
    rfl
  have small := x.toBits.toBitVec.isLt
  change x.toBits.toNat < 2 ^ 32 at small
  have either : x.toBits.toNat = 0 ∨ x.toBits.toNat = 0x80000000 := by omega
  rcases either with zero | negative
  · left
    rw [← Float32.ofBits_toBits x]
    exact congrArg Float32.ofBits (UInt32.toNat_inj.mp zero)
  · right
    rw [← Float32.ofBits_toBits x]
    exact congrArg Float32.ofBits (UInt32.toNat_inj.mp negative)

/-- A number is what its own magnitude rounds to. -/
theorem ofRatio_of_nearest {r : Ratio} (nearest : single.nearest r = some (magnitude x)) :
    ofRatio (isNegative x) r = x := by
  unfold ofRatio
  rw [nearest]
  exact ofBits_sign_magnitude x

end Single

/-! ### Double-precision numbers -/

namespace Double

section Packed

variable (b : BitVec Float.Model.Format.binary64.numBits)

theorem toNat_unpackExponent : (unpackExponent b).toNat = b.toNat / 2 ^ 52 % 2 ^ 11 := by
  simp only [unpackExponent, BitVec.toNat_cast, BitVec.extractLsb_toNat, Nat.shiftRight_eq_div_pow]

theorem toNat_unpackMantissa : (unpackMantissa b).toNat = b.toNat % 2 ^ 52 := by
  simp only [unpackMantissa, BitVec.toNat_cast, BitVec.extractLsb_toNat, Nat.shiftRight_eq_div_pow, pow_zero,
    Nat.div_one, Nat.sub_zero, Nat.sub_add_cancel (show 1 ≤ 52 by omega)]

theorem toNat_unpackSign : (unpackSign b).toNat = b.toNat / 2 ^ 63 % 2 := by
  simp only [unpackSign, BitVec.toNat_cast, BitVec.extractLsb_toNat, Nat.shiftRight_eq_div_pow]

end Packed

def sign (negative : Bool) : Sign := if negative then .negative else .positive

theorem toNat_parts (spec : Float.Model.Format) (negative : Bool) (e : BitVec spec.exponentBits)
    (m : BitVec spec.mantissaBitsWithoutImplicit) :
    (packComponents spec (sign negative) e m).toNat =
      negative.toNat * 2 ^ (spec.exponentBits + spec.mantissaBitsWithoutImplicit) +
        e.toNat * 2 ^ spec.mantissaBitsWithoutImplicit + m.toNat := by
  have signed : (sign negative).toBitVec.toNat = negative.toNat := by cases negative <;> rfl
  change (((sign negative).toBitVec ++ e) ++ m).toNat = _
  rw [BitVec.toNat_append, ← Nat.shiftLeft_add_eq_or_of_lt m.isLt, Nat.shiftLeft_eq, BitVec.toNat_append,
    ← Nat.shiftLeft_add_eq_or_of_lt e.isLt, Nat.shiftLeft_eq, signed, pow_add]
  ring

theorem toNat_packComponents (negative : Bool) (e : BitVec 11) (m : BitVec 52) :
    (packComponents Float.Model.Format.binary64 (sign negative) e m).toNat
      = negative.toNat * 2 ^ 63 + e.toNat * 2 ^ 52 + m.toNat := toNat_parts .binary64 negative e m

variable {x : Float} {negative : Bool} {m : Magnitude}

theorem encode_eq (lowest : -1074 ≤ m.exponent) : double.encode m =
    if m.significand < 2 ^ 52 then m.significand
    else (m.exponent + 1075).toNat * 2 ^ 52 + (m.significand - 2 ^ 52) := by
  have field : (m.exponent - -1074 + 1).toNat = (m.exponent + 1075).toNat := by omega
  simp only [Format.encode, double, Nat.shiftLeft_eq, one_mul, field]

theorem toNat_pack (fits : double.Fits m) (pos : 0 < m.significand) :
    (UnpackedFloat.pack .binary64 (.finite (sign negative) m.significand m.exponent pos)).toNat
      = negative.toNat * 2 ^ 63 + double.encode m := by
  have narrow : m.significand < 2 ^ 53 := fits.narrow
  have full : 2 ^ 52 ≤ m.significand ∨ m.exponent = -1074 := fits.full
  have lowest : -1074 ≤ m.exponent := fits.lowest
  have highest : m.exponent ≤ 971 := fits.highest
  have field : (m.exponent + (Float.Model.Format.binary64.exponentBias : ℤ)
      + (Float.Model.Format.binary64.mantissaBitsWithoutImplicit : ℤ)).toNat = (m.exponent + 1075).toNat := by
    simp only [Float.Model.Format.exponentBias]
    omega
  rw [encode_eq lowest]
  unfold UnpackedFloat.pack
  dsimp only
  rw [field, if_neg (show ¬ 2 ^ 11 ≤ (m.exponent + 1075).toNat + 1 by omega)]
  by_cases short : m.significand < 2 ^ 52
  · have log : m.significand.log2 < 52 := (Nat.log2_lt pos.ne').mpr short
    rw [if_neg (show ¬ m.significand.log2 + 1 = Float.Model.Format.binary64.mantissaBits by
      simp only [Float.Model.Format.mantissaBits]; omega), if_pos short, toNat_packComponents]
    simp only [BitVec.toNat_ofNat]
    omega
  · have log : m.significand.log2 = 52 := (Nat.log2_eq_iff pos.ne').mpr ⟨by omega, narrow⟩
    rw [if_pos (show m.significand.log2 + 1 = Float.Model.Format.binary64.mantissaBits by
      simp only [Float.Model.Format.mantissaBits]; omega), if_neg short, toNat_packComponents]
    simp only [BitVec.toNat_ofNat]
    omega

/-- A double with this sign and this magnitude, which is not zero. -/
structure Stands (x : Float) (negative : Bool) (m : Magnitude) : Prop where
  fits : double.Fits m
  pos : 0 < m.significand
  bits : x.toBits.toNat = negative.toNat * 2 ^ 63 + double.encode m

theorem stands_of_pack (fits : double.Fits m) (pos : 0 < m.significand)
    (packed : x.toModel = .pack (.finite (sign negative) m.significand m.exponent pos)) :
    Stands x negative m := by
  refine ⟨fits, pos, ?_⟩
  rw [← toNat_pack fits pos]
  unfold Float.toBits
  rw [packed]
  rfl

theorem Stands.unpack (stands : Stands x negative m) :
    x.toModel.unpack = .finite (sign negative) m.significand m.exponent stands.pos := by
  have pos := stands.pos
  have narrow : m.significand < 2 ^ 53 := stands.fits.narrow
  have full : 2 ^ 52 ≤ m.significand ∨ m.exponent = -1074 := stands.fits.full
  have lowest : -1074 ≤ m.exponent := stands.fits.lowest
  have highest : m.exponent ≤ 971 := stands.fits.highest
  have bits := stands.bits
  have signBit := Bool.toNat_le negative
  change UnpackedFloat.unpack .binary64 x.toBits.toBitVec = _
  change x.toBits.toBitVec.toNat = _ at bits
  rw [encode_eq lowest] at bits
  generalize x.toBits.toBitVec = b at *
  have field := toNat_unpackExponent b
  have fraction := toNat_unpackMantissa b
  have signed : Sign.ofBitVec (@unpackSign .binary64 b) = sign negative := by
    have : @unpackSign .binary64 b = BitVec.ofBool negative := by
      refine BitVec.eq_of_toNat_eq ?_
      rw [toNat_unpackSign, BitVec.toNat_ofBool]
      split at bits <;> omega
    rw [this]
    cases negative <;> rfl
  have notAll : @unpackExponent .binary64 b ≠ -1#11 := by
    intro all
    rw [all] at field
    have : (-1#11).toNat = 2047 := rfl
    split at bits <;> omega
  unfold UnpackedFloat.unpack
  dsimp only
  rw [signed, if_neg notAll]
  by_cases short : m.significand < 2 ^ 52
  · rw [if_pos short] at bits
    have none : @unpackExponent .binary64 b = 0#11 := by
      refine BitVec.eq_of_toNat_eq ?_
      rw [field]
      change _ = 0
      omega
    have mantissa : (@unpackMantissa .binary64 b).toNat = m.significand := by omega
    have some : @unpackMantissa .binary64 b ≠ 0#52 := by
      intro zero
      rw [zero] at mantissa
      change 0 = _ at mantissa
      omega
    have least : m.exponent = -1074 := by omega
    rw [if_pos none, dif_neg some]
    simp only [mantissa, none, least]
    rfl
  · rw [if_neg short] at bits
    have some : @unpackExponent .binary64 b ≠ 0#11 := by
      intro zero
      rw [zero] at field
      change 0 = _ at field
      omega
    have mantissa : (1#1 ++ @unpackMantissa .binary64 b).toNat = m.significand := by
      rw [BitVec.toNat_append, ← Nat.shiftLeft_add_eq_or_of_lt (@unpackMantissa .binary64 b).isLt, Nat.shiftLeft_eq, fraction]
      change 1 * 2 ^ 52 + _ = _
      omega
    have exponent : ((@unpackExponent .binary64 b).toNat : ℤ) - ((Float.Model.Format.binary64.exponentBias : ℤ)
        + (Float.Model.Format.binary64.mantissaBitsWithoutImplicit : ℤ)) = m.exponent := by
      rw [field]
      simp only [Float.Model.Format.exponentBias]
      omega
    rw [if_neg some]
    simp only [mantissa, exponent]

theorem Stands.isNaN (stands : Stands x negative m) : x.isNaN = false := by
  change x.toModel.unpack.isNaN = false
  rw [stands.unpack]
  rfl

theorem Stands.isInf (stands : Stands x negative m) : x.isInf = false := by
  change x.toModel.unpack.isInf = false
  rw [stands.unpack]
  rfl

theorem Stands.encode_lt (stands : Stands x negative m) : double.encode m < 2 ^ 63 := by
  have less := Format.encode_lt (by decide) stands.fits
  have : double.limit < 2 ^ 63 := by decide +kernel
  omega

theorem Stands.magnitude (stands : Stands x negative m) : magnitude x = m := by
  have less := stands.encode_lt
  have rest : x.toBits.toNat % 0x8000000000000000 = double.encode m := by
    rw [stands.bits]
    omega
  rw [Double.magnitude, rest, Format.decode_encode (by decide) stands.fits]

theorem Stands.isNegative (stands : Stands x negative m) : isNegative x = negative := by
  have less := stands.encode_lt
  have bits := stands.bits
  cases negative with
  | false => exact decide_eq_false (by simp only [Bool.toNat_false] at bits; omega)
  | true => exact decide_eq_true (by simp only [Bool.toNat_true] at bits; omega)

theorem Stands.neg (stands : Stands x false m) : Stands (-x) true m := by
  refine stands_of_pack stands.fits stands.pos ?_
  change Float.Model.pack (UnpackedFloat.neg x.toModel.unpack) = _
  rw [stands.unpack]
  rfl

theorem stands_ofBits (fits : double.Fits m) (pos : 0 < m.significand) (negative : Bool) :
    Stands (Float.ofBits (UInt64.ofNat (if negative then double.encode m + 0x8000000000000000
      else double.encode m))) negative m := by
  let y : Float := .ofModel (.pack (.finite (sign negative) m.significand m.exponent pos))
  have stands : Stands y negative m := stands_of_pack fits pos rfl
  have bits : (if negative then double.encode m + 0x8000000000000000 else double.encode m) = y.toBits.toNat := by
    rw [stands.bits]
    cases negative with
    | false => simp
    | true => simp [Nat.add_comm]
  rw [bits, UInt64.ofNat_toNat, Float.ofBits_toBits]
  exact stands

theorem stands_ofRatio {r : Ratio} (nearest : double.nearest r = some m) (fits : double.Fits m)
    (pos : 0 < m.significand) (negative : Bool) : Stands (ofRatio negative r) negative m := by
  unfold ofRatio
  rw [nearest]
  exact stands_ofBits fits pos negative

end Double

namespace Single

variable {x : Float32} {y : Float} {m : Magnitude}

theorem ofDouble_of_stands {negative : Bool} (stands : Double.Stands y negative m) :
    ofDouble y = ofRatio negative m.ratio := by
  unfold ofDouble
  rw [stands.isNaN, stands.isInf, stands.isNegative, stands.magnitude]
  rfl

/-- A double narrows to the number whose ends are around it. -/
theorem ofDouble_of_reads (finite : x.isFinite = true) (pos : 0 < (magnitude x).significand)
    (stands : Double.Stands y (isNegative x) m) (reads : single.Reads (magnitude x) m.value) : ofDouble y = x := by
  rw [ofDouble_of_stands stands]
  refine ofRatio_of_nearest ?_
  refine Format.nearest_of_reads (by decide) (fits_magnitude finite) pos (Magnitude.ratio_den_pos m) ?_
  rw [Magnitude.value_ratio]
  exact reads

end Single

end Toolpath

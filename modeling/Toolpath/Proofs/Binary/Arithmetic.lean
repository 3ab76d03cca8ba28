import Mathlib
import Toolpath.Proofs.Binary.Packed
import Toolpath.Proofs.Binary.Rounding

/-!
# Arithmetic of single precision

A sum, a product or a quotient of finite numbers is the exact result rounded, and it is finite when the exact
result is in range. A sum or a product is finite only if its operands are.
-/

namespace Toolpath.Single

open Binary (two_zpow_pos two_zpow_succ)
open Float.Model (Format UnpackedFloat totalExponent)
open Float.Model.UnpackedFloat (Accuracy ExtendedMantissa Sign accuracyOfFraction divCore roundWithAccuracy
  shiftToTargetExponent)
open Double (extended extended_one extended_fraction shiftRight_extended roundedMantissa_extended)

/-! ### Rounding -/

/-- In canonical form the nearest to a value, however large its exponent. -/
structure Nearest (v : ℚ) (u : UnpackedFloat) : Prop where
  canonical : Canonical u
  finite : u.isFinite = true
  value : valueOf u = rounded v

/-- The value rounded, or an infinity for a value out of range. -/
structure Rounds (v : ℚ) (x : Float32) : Prop where
  finite_iff : x.isFinite = true ↔ InRange v
  value : x.isFinite = true → value x = rounded v

theorem targetExponent_eq (m : ℕ) (e : ℤ) :
    Format.binary32.targetExponent (totalExponent m e) = max ((m.log2 : ℤ) + e - 23) (-149) := by
  simp only [Format.targetExponent, Format.mantissaBits, Format.minExponent, totalExponent]
  norm_num
  omega

theorem shiftToTargetExponent_eq {q n d k : ℕ} {e : ℤ} {accuracy : Accuracy} (pos : 0 < d)
    (exact : ExtendedMantissa.ofMantissaAndAccuracy q accuracy = extended n d)
    (shift : (max ((q.log2 : ℤ) + e - 23) (-149) - e).toNat = k) :
    shiftToTargetExponent .binary32 q e accuracy = (extended n (d * 2 ^ k), e + k) := by
  unfold shiftToTargetExponent UnpackedFloat.shiftToExponent
  dsimp only
  rw [targetExponent_eq, shift, exact, shiftRight_extended n pos]

theorem roundedMantissa_eq (n : ℕ) {d : ℕ} (pos : 0 < d) :
    ((extended n d).roundedMantissa : ℤ) = roundEven (n / d) := by
  have dpos : (0 : ℚ) < d := by exact_mod_cast pos
  have parts : (n : ℚ) / d = (n / d : ℕ) + (n % d : ℕ) / d := by
    rw [eq_comm, ← mul_left_inj' dpos.ne', add_mul, div_mul_cancel₀ _ dpos.ne', div_mul_cancel₀ _ dpos.ne']
    exact_mod_cast Nat.div_add_mod' n d
  rw [roundedMantissa_extended n pos, parts]
  generalize n / d = q
  have rest : ((n % d : ℕ) : ℚ) / d < 1 := (div_lt_one dpos).mpr (by exact_mod_cast Nat.mod_lt n pos)
  have nonneg : 0 ≤ ((n % d : ℕ) : ℚ) / d := by positivity
  split_ifs with less half
  · have below : ((n % d : ℕ) : ℚ) / d < 1 / 2 := by
      rw [div_lt_iff₀ dpos]
      have : (2 * (n % d : ℕ) : ℚ) < d := by exact_mod_cast less
      linarith
    generalize ((n % d : ℕ) : ℚ) / d = f at *
    refine (roundEven_eq_of_lt ?_).symm
    rw [Int.cast_natCast, abs_lt]
    constructor <;> linarith
  · have middle : ((n % d : ℕ) : ℚ) / d = 1 / 2 := by
      rw [div_eq_iff dpos.ne']
      have : (2 * (n % d : ℕ) : ℚ) = d := by exact_mod_cast half
      linarith
    rw [middle]
    refine (roundEven_eq ?_ fun _ => ⟨((q + q % 2) / 2 : ℕ), by omega⟩).symm
    rcases Nat.mod_two_eq_zero_or_one q with even | odd
    · rw [even]
      norm_num
    · rw [odd]
      push_cast
      ring_nf
      norm_num
  · have above : 1 / 2 < ((n % d : ℕ) : ℚ) / d := by
      rw [lt_div_iff₀ dpos]
      have : (d : ℚ) < 2 * (n % d : ℕ) := by exact_mod_cast (by omega : d < 2 * (n % d))
      linarith
    generalize ((n % d : ℕ) : ℚ) / d = f at *
    refine (roundEven_eq_of_lt ?_).symm
    push_cast
    rw [abs_lt]
    constructor <;> linarith

/-- Carrying out of full width moves the exponent up by one. -/
theorem shift_rounded {r : ℕ} {t : ℤ} (most : r ≤ 2 ^ 24) (least : -149 ≤ t) (full : 2 ^ 23 ≤ r ∨ t = -149) :
    ∃ (m : ℕ) (e : ℤ), (shiftToTargetExponent .binary32 r t .exact).1.mantissa = m ∧
      (shiftToTargetExponent .binary32 r t .exact).2 = e ∧ (m : ℚ) * 2 ^ e = r * 2 ^ t ∧ m < 2 ^ 24 ∧ -149 ≤ e ∧
      (2 ^ 23 ≤ m ∨ e = -149) := by
  rcases Nat.lt_or_eq_of_le most with less | rfl
  · have log : r.log2 ≤ 23 := by
      rcases Nat.eq_zero_or_pos r with rfl | pos
      · decide
      · exact Nat.le_of_lt_succ ((Nat.log2_lt pos.ne').mpr less)
    rw [shiftToTargetExponent_eq Nat.one_pos (extended_one r) (k := 0) (by omega)]
    exact ⟨r, t, by simp [extended], by simp, rfl, less, least, full⟩
  · have log : (2 ^ 24).log2 = 24 := Nat.log2_two_pow
    rw [shiftToTargetExponent_eq Nat.one_pos (extended_one (2 ^ 24)) (k := 1) (by omega)]
    refine ⟨2 ^ 23, t + 1, by simp [extended], by simp, ?_, by norm_num, by omega, Or.inl le_rfl⟩
    rw [two_zpow_succ]
    norm_num
    ring

theorem unitOf_quotient {n d : ℕ} {e : ℤ} (some : 0 < n) (pos : 0 < d) (fine : 23 ≤ (n / d).log2 ∨ e ≤ -149) :
    unitOf (n / d * 2 ^ e) = max (((n / d).log2 : ℤ) + e - 23) (-149) := by
  have dpos : (0 : ℚ) < d := by exact_mod_cast pos
  have npos : (0 : ℚ) < n := by exact_mod_cast some
  have vpos : 0 < (n : ℚ) / d * 2 ^ e := mul_pos (div_pos npos dpos) (two_zpow_pos e)
  apply unitOf_eq vpos.ne'
  · have above : n < 2 ^ ((n / d).log2 + 1) * d := (Nat.div_lt_iff_lt_mul pos).mp Nat.lt_log2_self
    have above : (n : ℚ) < 2 ^ ((n / d).log2 + 1) * d := by exact_mod_cast above
    rw [abs_of_pos vpos, ← two_zpow_add]
    calc (n : ℚ) / d * 2 ^ e < 2 ^ ((n / d).log2 + 1) * 2 ^ e :=
          mul_lt_mul_of_pos_right ((div_lt_iff₀ dpos).mpr above) (two_zpow_pos e)
      _ = 2 ^ (((n / d).log2 + 1 : ℕ) + e) := (two_zpow_add _ e).symm
      _ ≤ 2 ^ ((24 : ℕ) + max (((n / d).log2 : ℤ) + e - 23) (-149)) := by
        apply zpow_le_zpow_right₀ (by norm_num)
        omega
  · rcases le_or_gt (((n / d).log2 : ℤ) + e - 23) (-149) with least | normal
    · exact Or.inr (max_eq_right least)
    · left
      have whole : n / d ≠ 0 := by
        intro zero
        rw [zero, Nat.log2_zero] at fine normal
        omega
      have below : 2 ^ (n / d).log2 * d ≤ n :=
        (Nat.mul_le_mul_right d (Nat.log2_self_le whole)).trans (Nat.div_mul_le_self n d)
      have below : (2 : ℚ) ^ (n / d).log2 * d ≤ n := by exact_mod_cast below
      rw [max_eq_left normal.le, abs_of_pos vpos, ← two_zpow_add]
      calc (2 : ℚ) ^ ((23 : ℕ) + (((n / d).log2 : ℤ) + e - 23)) = 2 ^ (((n / d).log2 : ℤ) + e) := by
            congr 1
            omega
        _ = 2 ^ (n / d).log2 * 2 ^ e := two_zpow_add _ e
        _ ≤ n / d * 2 ^ e := mul_le_mul_of_nonneg_right ((le_div_iff₀ dpos).mpr below) (two_zpow_pos e).le
  · exact le_max_right _ _

/-- Rounding a positive quotient of which as many bits are given as full width needs. -/
theorem nearest_quotient {n d : ℕ} {e : ℤ} {accuracy : Accuracy} (s : Sign) (some : 0 < n) (pos : 0 < d)
    (exact : ExtendedMantissa.ofMantissaAndAccuracy (n / d) accuracy = extended n d)
    (fine : 23 ≤ (n / d).log2 ∨ e ≤ -149) :
    Nearest (signed s (n / d * 2 ^ e)) (roundWithAccuracy .binary32 s (n / d) e accuracy) := by
  have unit := unitOf_quotient some pos fine
  obtain ⟨k, shift⟩ : ∃ k : ℕ, unitOf (n / d * 2 ^ e) = e + k :=
    ⟨(unitOf (n / d * 2 ^ e) - e).toNat, by omega⟩
  -- The first shift brings it to its unit, and rounds.
  have first : shiftToTargetExponent .binary32 (n / d) e accuracy = (extended n (d * 2 ^ k), e + k) :=
    shiftToTargetExponent_eq pos exact (by omega)
  have scaled : (n : ℚ) / (d * 2 ^ k : ℕ) = n / d * 2 ^ e / 2 ^ unitOf (n / d * 2 ^ e) := by
    rw [shift, add_comm, two_zpow_add, mul_div_mul_right _ _ (two_zpow_pos e).ne', div_div]
    push_cast
    rfl
  have mantissa := roundedMantissa_eq n (show 0 < d * 2 ^ k by positivity)
  rw [scaled] at mantissa
  generalize rounds : (extended n (d * 2 ^ k)).roundedMantissa = r at mantissa
  have lowest := lowest_le_unitOf (n / d * 2 ^ e)
  have result : rounded (n / d * 2 ^ e) = r * 2 ^ (e + k) := by
    rw [rounded, ← mantissa, Int.cast_natCast, shift]
  have most : r ≤ 2 ^ 24 := by
    have := roundEven_units_le (n / d * 2 ^ e)
    omega
  have full : 2 ^ 23 ≤ r ∨ e + k = -149 := by
    rcases lowest.lt_or_eq with normal | least
    · left
      have := le_roundEven_units (show 0 < (n : ℚ) / d * 2 ^ e by positivity) normal
      omega
    · right
      omega
  obtain ⟨m, f, mantissa, exponent, value, canonical⟩ := shift_rounded most (by omega) full
  unfold roundWithAccuracy
  rw [first]
  dsimp only
  rw [rounds]
  simp only [mantissa, exponent]
  split
  · next zero =>
    rw [zero, Nat.cast_zero, zero_mul] at value
    refine ⟨trivial, rfl, ?_⟩
    rw [rounded_signed, result, ← value]
    cases s
    · exact neg_zero.symm
    · rfl
  · refine ⟨canonical, rfl, ?_⟩
    rw [rounded_signed, result, ← value]
    rfl

theorem nearest_integer {n : ℕ} {e : ℤ} (s : Sign) (some : 0 < n) (fine : 23 ≤ n.log2 ∨ e ≤ -149) :
    Nearest (signed s (n * 2 ^ e)) (roundWithAccuracy .binary32 s n e .exact) := by
  have exact : ExtendedMantissa.ofMantissaAndAccuracy (n / 1) .exact = extended n 1 := by
    rw [Nat.div_one]
    exact extended_one n
  have nearest := nearest_quotient s some Nat.one_pos exact (by rwa [Nat.div_one])
  rwa [Nat.div_one, Nat.cast_one, div_one] at nearest

theorem log2_mul_two_pow {n : ℕ} (some : 0 < n) (k : ℕ) : (n * 2 ^ k).log2 = n.log2 + k := by
  rw [Nat.log2_eq_iff (by positivity)]
  constructor
  · rw [pow_add]
    exact Nat.mul_le_mul_right _ (Nat.log2_self_le some.ne')
  · rw [add_right_comm, pow_add]
    exact Nat.mul_lt_mul_of_pos_right Nat.lt_log2_self (by positivity)

/-- A number with fewer bits than full width is widened before it is rounded. -/
theorem nearest_widened {n : ℕ} (s : Sign) (some : 0 < n) (e : ℤ) :
    Nearest (signed s (n * 2 ^ e)) (UnpackedFloat.round .binary32 s n e) := by
  unfold UnpackedFloat.round UnpackedFloat.decreaseExponent
  dsimp only
  rw [targetExponent_eq, Nat.shiftLeft_eq]
  generalize shift : (e - max ((n.log2 : ℤ) + e - 23) (-149)).toNat = k
  have same : (n : ℚ) * 2 ^ e = (n * 2 ^ k : ℕ) * 2 ^ (e - k) := by
    rw [Nat.cast_mul, mul_assoc, Nat.cast_pow, Nat.cast_ofNat, ← two_zpow_add]
    congr 2
    omega
  rw [same]
  apply nearest_integer s (by positivity)
  rw [log2_mul_two_pow some]
  omega

theorem nearest_normalize (k e : ℤ) (zeroSign : Sign) :
    Nearest (k * 2 ^ e) (UnpackedFloat.normalize .binary32 k e zeroSign) := by
  unfold UnpackedFloat.normalize
  rcases lt_trichotomy k 0 with negative | rfl | positive
  · rw [compare_lt_iff_lt.mpr negative]
    have size : (k : ℚ) * 2 ^ e = signed .negative ((-k).toNat * 2 ^ e) := by
      have : (((-k).toNat : ℤ) : ℚ) = -k := by exact_mod_cast Int.toNat_of_nonneg (by omega)
      rw [Int.cast_natCast] at this
      rw [this, signed]
      ring
    rw [size]
    exact nearest_widened .negative (by omega) e
  · refine ⟨trivial, rfl, ?_⟩
    rw [Int.cast_zero, zero_mul, rounded_zero]
    rfl
  · rw [compare_gt_iff_gt.mpr positive]
    have size : (k : ℚ) * 2 ^ e = signed .positive (k.toNat * 2 ^ e) := by
      have : ((k.toNat : ℤ) : ℚ) = k := by exact_mod_cast Int.toNat_of_nonneg (by omega)
      rw [Int.cast_natCast] at this
      rw [this, signed]
    rw [size]
    exact nearest_widened .positive (by omega) e

/-- A number in canonical form is the nearest to its own value. -/
theorem Nearest.self {u : UnpackedFloat} (canonical : Canonical u) (finite : u.isFinite = true) :
    Nearest (valueOf u) u :=
  ⟨canonical, finite, (rounded_exact (exact_valueOf canonical)).symm⟩

theorem nearest_zero (s : Sign) : Nearest 0 (.zero s) := ⟨trivial, rfl, rounded_zero.symm⟩

/-! ### Operations on the parts of numbers -/

section Unpacked

variable {u w : UnpackedFloat}

theorem valueOf_neg (u : UnpackedFloat) : valueOf u.neg = -valueOf u := by
  cases u with
  | finite s m e pos => exact signed_neg s _
  | _ => exact neg_zero.symm

theorem valueOf_abs (u : UnpackedFloat) : valueOf u.abs = |valueOf u| := by
  cases u with
  | finite s m e pos => exact (abs_valueOf_finite s m e pos).symm
  | _ => exact abs_zero.symm

theorem canonical_neg (canonical : Canonical u) : Canonical u.neg := by
  cases u with
  | finite => exact canonical
  | _ => trivial

theorem isFinite_neg (u : UnpackedFloat) : u.neg.isFinite = u.isFinite := by cases u <;> rfl

theorem canonical_abs (canonical : Canonical u) : Canonical u.abs := by
  cases u with
  | finite => exact canonical
  | _ => trivial

theorem isFinite_abs (u : UnpackedFloat) : u.abs.isFinite = u.isFinite := by cases u <;> rfl

theorem sub_eq_add_neg_model (spec : Format) (u w : UnpackedFloat) :
    UnpackedFloat.sub spec u w = UnpackedFloat.add spec u w.neg := by
  cases u with
  | finite s m e pos =>
    cases w with
    | finite t n f k =>
      have apply_neg (j : ℤ) : (-t).apply j = -t.apply j := by
        cases t
        · exact (neg_neg j).symm
        · rfl
      simp only [UnpackedFloat.sub, UnpackedFloat.add, UnpackedFloat.neg, apply_neg, Int.sub_eq_add_neg]
    | _ => rfl
  | _ => cases w <;> rfl

theorem signed_mul (s t : Sign) (v v' : ℚ) : signed s v * signed t v' = signed (s * t) (v * v') := by
  cases s <;> cases t
  · exact neg_mul_neg v v'
  · exact neg_mul v v'
  · exact mul_neg v v'
  · rfl

theorem signed_div (s t : Sign) (v v' : ℚ) : signed s v / signed t v' = signed (s / t) (v / v') := by
  cases s <;> cases t
  · exact neg_div_neg_eq v v'
  · exact neg_div v' v
  · exact div_neg v
  · rfl

theorem signed_shifted {s : Sign} {m k : ℕ} {e f : ℤ} (shift : e = k + f) :
    signed s (m * 2 ^ e) = (s.apply (m <<< k : ℕ) : ℤ) * 2 ^ f := by
  rw [shift, two_zpow_add, ← mul_assoc, Nat.shiftLeft_eq]
  cases s
  · simp only [signed, Sign.apply]
    push_cast
    ring
  · simp only [signed, Sign.apply]
    push_cast
    rfl

/-- The dividend is shifted far enough for a quotient in full width. -/
theorem divCore_fine {m n : ℕ} (pos : 0 < m) (k : 0 < n) (e f : ℤ) :
    ∃ (j : ℕ) (t : ℤ), divCore .binary32 m e n f = (m * 2 ^ j / n, t, accuracyOfFraction (m * 2 ^ j % n) n) ∧
      e - f = j + t ∧ (23 ≤ (m * 2 ^ j / n).log2 ∨ t ≤ -149) := by
  unfold divCore
  dsimp only
  generalize target : min (e - f) (Format.binary32.targetExponent (totalExponent m e - totalExponent n f)) = t
  have least : t ≤ e - f := target ▸ min_le_left _ _
  refine ⟨(e - f - t).toNat, t, by rw [Nat.shiftLeft_eq], by omega, ?_⟩
  have bound : t ≤ max ((m.log2 : ℤ) + e - (n.log2 + f) - 24) (-149) := by
    have := target ▸ min_le_right (e - f) (Format.binary32.targetExponent (totalExponent m e - totalExponent n f))
    simp only [Format.targetExponent, Format.mantissaBits, Format.minExponent, totalExponent] at this
    norm_num at this
    omega
  rcases le_or_gt t (-149) with small | normal
  · exact Or.inr small
  · left
    generalize shift : (e - f - t).toNat = j
    have enough : n.log2 + 24 ≤ m.log2 + j := by omega
    have above : 2 ^ (m.log2 + j) ≤ m * 2 ^ j := by
      rw [pow_add]
      exact Nat.mul_le_mul_right _ (Nat.log2_self_le pos.ne')
    have below : n < 2 ^ (n.log2 + 1) := Nat.lt_log2_self
    have quotient : 2 ^ 23 ≤ m * 2 ^ j / n := by
      rw [Nat.le_div_iff_mul_le k]
      calc 2 ^ 23 * n ≤ 2 ^ 23 * 2 ^ (n.log2 + 1) := Nat.mul_le_mul_left _ below.le
        _ = 2 ^ (n.log2 + 24) := by
          rw [← pow_add]
          congr 1
          omega
        _ ≤ 2 ^ (m.log2 + j) := Nat.pow_le_pow_right two_pos enough
        _ ≤ m * 2 ^ j := above
    exact (Nat.le_log2 (by omega)).mpr quotient

section Finite

variable (left : Canonical u) (right : Canonical w) (finite : u.isFinite = true) (finite' : w.isFinite = true)
include left right finite finite'

theorem nearest_add : Nearest (valueOf u + valueOf w) (UnpackedFloat.add .binary32 u w) := by
  cases u with
  | infinity | notANumber => cases finite
  | zero s =>
    have zero : valueOf (.zero s) = 0 := rfl
    rw [zero, zero_add]
    cases w with
    | infinity | notANumber => cases finite'
    | zero t =>
      have sum : ∃ r : Sign, UnpackedFloat.add .binary32 (.zero s) (.zero t) = .zero r := by
        cases s <;> cases t <;> exact ⟨_, rfl⟩
      obtain ⟨r, sum⟩ := sum
      rw [sum]
      exact nearest_zero r
    | finite => exact .self right rfl
  | finite s m e pos =>
    cases w with
    | infinity | notANumber => cases finite'
    | zero t =>
      rw [show valueOf (.zero t) = 0 from rfl, add_zero]
      exact .self left rfl
    | finite t n f k =>
      have exact : valueOf (.finite s m e pos) + valueOf (.finite t n f k)
          = (s.apply (m <<< (e - min e f).toNat : ℕ) + t.apply (n <<< (f - min e f).toNat : ℕ) : ℤ) * 2 ^ min e f := by
        rw [Int.cast_add, add_mul, ← signed_shifted (e := e) (by omega), ← signed_shifted (e := f) (by omega)]
        rfl
      rw [exact]
      exact nearest_normalize _ _ _

theorem nearest_sub : Nearest (valueOf u - valueOf w) (UnpackedFloat.sub .binary32 u w) := by
  rw [sub_eq_add_neg_model, sub_eq_add_neg, ← valueOf_neg]
  apply nearest_add left (canonical_neg right) finite
  rw [isFinite_neg]
  exact finite'

theorem nearest_mul : Nearest (valueOf u * valueOf w) (UnpackedFloat.mul .binary32 u w) := by
  have zero (s : Sign) : valueOf (.zero s) = 0 := rfl
  cases u with
  | infinity | notANumber => cases finite
  | zero s =>
    rw [zero, zero_mul]
    cases w with
    | infinity | notANumber => cases finite'
    | zero t => exact nearest_zero _
    | finite => exact nearest_zero _
  | finite s m e pos =>
    cases w with
    | infinity | notANumber => cases finite'
    | zero t =>
      rw [zero, mul_zero]
      exact nearest_zero _
    | finite t n f k =>
      have product : valueOf (.finite s m e pos) * valueOf (.finite t n f k)
          = signed (s * t) ((m * n : ℕ) * 2 ^ (e + f)) := by
        change signed s _ * signed t _ = _
        rw [signed_mul, zpow_add₀ (by norm_num), Nat.cast_mul]
        congr 1
        ring
      have fine : 23 ≤ (m * n).log2 ∨ e + f ≤ -149 := by
        obtain ⟨-, -, full⟩ := left
        obtain ⟨-, -, full'⟩ := right
        rw [Nat.le_log2 (by positivity)]
        rcases full with full | least
        · exact Or.inl (full.trans (Nat.le_mul_of_pos_right m k))
        · rcases full' with full' | least'
          · exact Or.inl (full'.trans (Nat.le_mul_of_pos_left n pos))
          · right
            omega
      rw [product]
      exact nearest_integer (s * t) (by positivity) fine

theorem nearest_div (some : valueOf w ≠ 0) : Nearest (valueOf u / valueOf w) (UnpackedFloat.div .binary32 u w) := by
  cases w with
  | infinity | notANumber => cases finite'
  | zero t => exact absurd rfl some
  | finite t n f k =>
    cases u with
    | infinity | notANumber => cases finite
    | zero s =>
      rw [show valueOf (.zero s) = 0 from rfl, zero_div]
      exact nearest_zero _
    | finite s m e pos =>
      obtain ⟨j, g, core, shift, fine⟩ := divCore_fine pos k e f
      have quotient : valueOf (.finite s m e pos) / valueOf (.finite t n f k)
          = signed (s / t) ((m * 2 ^ j : ℕ) / n * 2 ^ g) := by
        change signed s _ / signed t _ = _
        have scale : (2 : ℚ) ^ e = 2 ^ j * 2 ^ g * 2 ^ f := by
          rw [← two_zpow_add, ← shift, ← zpow_add₀ (by norm_num), sub_add_cancel]
        rw [signed_div, scale, ← mul_assoc, mul_div_mul_right _ _ (two_zpow_pos f).ne']
        push_cast
        congr 1
        ring
      rw [quotient]
      simp only [UnpackedFloat.div, core]
      exact nearest_quotient (s / t) (by positivity) k (extended_fraction _ k) fine

end Finite

end Unpacked

/-! ### Numbers -/

variable {x y : Float32} {u : UnpackedFloat} {v : ℚ}

theorem unpack_ofModel_zero (s : Sign) : (ofModel (.zero s)).toModel.unpack = .zero s := by cases s <;> rfl

theorem Nearest.rounds (nearest : Nearest v u) : Rounds v (ofModel u) := by
  obtain ⟨canonical, finite, value_eq⟩ := nearest
  cases u with
  | infinity | notANumber => cases finite
  | zero s =>
    have same : Single.value (ofModel (.zero s)) = rounded v := by
      rw [← value_eq, Single.value, unpack_ofModel_zero]
    refine ⟨?_, fun _ => same⟩
    have range : InRange v := by
      rw [← abs_rounded_lt_iff, ← value_eq]
      norm_num [valueOf]
    exact ⟨fun _ => range, fun _ => by cases s <;> rfl⟩
  | finite s m e pos =>
    have unpacked : (ofModel (.finite s m e pos)).toModel.unpack = if e ≤ 104 then .finite s m e pos else .infinity s :=
      unpack_pack canonical
    have range : InRange v ↔ e ≤ 104 := by rw [← abs_rounded_lt_iff, ← value_eq, abs_valueOf_lt_iff canonical]
    have finite_iff : (ofModel (.finite s m e pos)).isFinite = true ↔ e ≤ 104 := by
      change (ofModel (.finite s m e pos)).toModel.unpack.isFinite = true ↔ _
      rw [unpacked]
      split
      · next small => exact ⟨fun _ => small, fun _ => rfl⟩
      · next large => exact ⟨fun finite => absurd finite Bool.false_ne_true, fun small => absurd small large⟩
    refine ⟨finite_iff.trans range.symm, fun finite => ?_⟩
    rw [Single.value, unpacked, if_pos (finite_iff.mp finite), value_eq]

section Finite

variable (left : x.isFinite = true) (right : y.isFinite = true)
include left

theorem rounds_abs : Rounds |value x| x.abs := by
  have nearest := Nearest.self (canonical_abs (canonical_model x)) ((isFinite_abs _).trans left)
  rw [valueOf_abs] at nearest
  exact nearest.rounds

include right

theorem rounds_add : Rounds (value x + value y) (x + y) :=
  (nearest_add (canonical_model x) (canonical_model y) left right).rounds

theorem rounds_sub : Rounds (value x - value y) (x - y) :=
  (nearest_sub (canonical_model x) (canonical_model y) left right).rounds

theorem rounds_mul : Rounds (value x * value y) (x * y) :=
  (nearest_mul (canonical_model x) (canonical_model y) left right).rounds

theorem rounds_div (some : value y ≠ 0) : Rounds (value x / value y) (x / y) :=
  (nearest_div (canonical_model x) (canonical_model y) left right some).rounds

end Finite

end Toolpath.Single

import Toolpath.Proofs.Json.Scaling

/-!
# Decimals close to a halfway point

The two roundings of a scaled number could carry it across a point halfway between two single-precision
numbers. `near_midpoint` says which decimals of at most 24 bits come that close to one. Their quotient by the
point would be a fraction close to `10 ^ e / 2 ^ t`, and between two fractions `p / q` and `r / s` with
`r * q = p * s + 1` there is none with a denominator less than `q + s`. So such a fraction is one of two that
a search finds, and these few are looked at one by one.
-/

namespace Toolpath.Json

open Binary Decimal

/-! ### Fractions between neighbours -/

/-- The fractions `p / q` and `r / s`. -/
structure Neighbours where
  p : ℕ
  q : ℕ
  r : ℕ
  s : ℕ

/-- Moves the two fractions towards `num / den`, each as far as it can go by mediants, until denominators would
pass the bound. -/
def Neighbours.search (num den bound : ℕ) : ℕ → Neighbours → Neighbours
  | 0, n => n
  | fuel + 1, ⟨p, q, r, s⟩ =>
    if bound < q + s then ⟨p, q, r, s⟩
    else
      let k := min ((num * q - p * den) / (r * den - num * s)) ((bound - q) / s)
      let p := p + k * r
      let q := q + k * s
      let rest := num * q - p * den
      let j := if rest = 0 then (bound - s) / q else min ((r * den - num * s - 1) / rest) ((bound - s) / q)
      search num den bound fuel ⟨p, q, r + j * p, s + j * q⟩

/-- The fractions are neighbours below the bound, and `num / den` is between them. -/
structure Neighbours.Around (n : Neighbours) (num den bound : ℕ) : Prop where
  unit : n.r * n.q = n.p * n.s + 1
  most : bound < n.q + n.s
  left : n.q ≤ bound
  right : n.s ≤ bound
  below : n.p * den ≤ num * n.q
  above : num * n.s ≤ n.r * den

instance (n : Neighbours) (num den bound : ℕ) : Decidable (n.Around num den bound) :=
  decidable_of_iff (n.r * n.q = n.p * n.s + 1 ∧ bound < n.q + n.s ∧ n.q ≤ bound ∧ n.s ≤ bound ∧
      n.p * den ≤ num * n.q ∧ num * n.s ≤ n.r * den)
    ⟨fun ⟨a, b, c, d, e, f⟩ => ⟨a, b, c, d, e, f⟩, fun ⟨a, b, c, d, e, f⟩ => ⟨a, b, c, d, e, f⟩⟩

/-- A fraction strictly between two neighbours has at least their denominators together. -/
theorem denominator_le {p q r s h d : ℕ} (unit : r * q = p * s + 1) (low : p * d < h * q) (high : h * s < r * d) :
    q + s ≤ d := by
  have expand : (d : ℤ) = q * (r * d - h * s) + s * (h * q - p * d) := by
    have unit : (r : ℤ) * q = p * s + 1 := by exact_mod_cast unit
    linear_combination (-(d : ℤ)) * unit
  have first : (1 : ℤ) ≤ r * d - h * s := by
    have : (h : ℤ) * s < r * d := by exact_mod_cast high
    omega
  have second : (1 : ℤ) ≤ h * q - p * d := by
    have : (p : ℤ) * d < h * q := by exact_mod_cast low
    omega
  have := mul_le_mul_of_nonneg_left first (Int.natCast_nonneg q)
  have := mul_le_mul_of_nonneg_left second (Int.natCast_nonneg s)
  omega

/-- The fraction is as close to `num / den` as the two roundings can bring it. -/
def IsClose (num den p q : ℕ) : Prop :=
  2 ^ 51 * (p * den) ≤ 2 ^ 51 * (num * q) + num * q ∧ 2 ^ 51 * (num * q) ≤ 2 ^ 51 * (p * den) + num * q

instance (num den p q : ℕ) : Decidable (IsClose num den p q) := inferInstanceAs (Decidable (_ ∧ _))

variable {num den p q h d : ℕ} {n : Neighbours}

theorem IsClose.of_same (close : IsClose num den h d) (pos : 0 < d) (same : h * q = p * d) : IsClose num den p q := by
  obtain ⟨upper, lower⟩ := close
  have shift : p * den * d = h * den * q := by
    calc p * den * d = p * d * den := by ring
      _ = h * den * q := by rw [← same]; ring
  constructor
  · refine Nat.le_of_mul_le_mul_right ?_ pos
    have := Nat.mul_le_mul_right q upper
    nlinarith
  · refine Nat.le_of_mul_le_mul_right ?_ pos
    have := Nat.mul_le_mul_right q lower
    nlinarith

/-- Of the fractions with small denominators, only the two neighbours can be close: another one would be
between them, or at least `1 / 2 ^ 48` away. -/
theorem Neighbours.Around.same_of_close (around : n.Around num den (2 ^ 24)) (close : IsClose num den h d)
    (small : d ≤ 2 ^ 24) (moderate : num < 8 * den) : h * n.q = n.p * d ∨ h * n.s = n.r * d := by
  obtain ⟨upper, lower⟩ := close
  have unit := around.unit
  have most := around.most
  have bound : ∀ k ≤ 2 ^ 24, num * (d * k) < 2 ^ 51 * den := by
    intro k le
    calc num * (d * k) ≤ num * (2 ^ 24 * 2 ^ 24) := Nat.mul_le_mul_left _ (Nat.mul_le_mul small le)
      _ < 8 * den * (2 ^ 24 * 2 ^ 24) := Nat.mul_lt_mul_of_pos_right moderate (by norm_num)
      _ = 2 ^ 51 * den := by ring
  rcases Nat.lt_trichotomy (h * n.q) (n.p * d) with left | same | right
  · have far := bound n.q around.left
    have gap := Nat.mul_le_mul_right den (Nat.succ_le_of_lt left)
    have first := Nat.mul_le_mul_right d around.below
    have second := Nat.mul_le_mul_right n.q lower
    nlinarith
  · exact Or.inl same
  · rcases Nat.lt_trichotomy (h * n.s) (n.r * d) with inside | same | beyond
    · have := denominator_le unit right inside
      omega
    · exact Or.inr same
    · have far := bound n.s around.right
      have gap := Nat.mul_le_mul_right den (Nat.succ_le_of_lt beyond)
      have first := Nat.mul_le_mul_right d around.above
      have second := Nat.mul_le_mul_right n.s upper
      nlinarith

theorem Neighbours.Around.dvd_left (around : n.Around num den (2 ^ 24)) (same : h * n.q = n.p * d) : n.q ∣ d := by
  have unit := around.unit
  have split : n.q * (n.r * d) = n.q * (h * n.s) + d := by
    calc n.q * (n.r * d) = (n.r * n.q) * d := by ring
      _ = n.p * d * n.s + d := by rw [unit]; ring
      _ = n.q * (h * n.s) + d := by rw [← same]; ring
  exact (Nat.dvd_add_right (Dvd.intro _ rfl)).mp (split ▸ Dvd.intro _ rfl)

theorem Neighbours.Around.dvd_right (around : n.Around num den (2 ^ 24)) (same : h * n.s = n.r * d) : n.s ∣ d := by
  have unit := around.unit
  have split : n.s * (h * n.q) = n.s * (n.p * d) + d := by
    calc n.s * (h * n.q) = h * n.s * n.q := by ring
      _ = n.r * n.q * d := by rw [same]; ring
      _ = n.s * (n.p * d) + d := by rw [unit]; ring
  exact (Nat.dvd_add_right (Dvd.intro _ rfl)).mp (split ▸ Dvd.intro _ rfl)

/-! ### The search over all powers of ten -/

/-- Read through its double, the decimal is the single-precision number nearest to it. -/
def rereads (d : ℕ) (e : ℤ) : Bool :=
  match scaleByTen 4 (UInt64.ofNat d).toFloat e with
  | some y => single.nearest (Double.magnitude y).ratio == single.nearest (scaled d e)
  | none => false

/-- Close decimals that the fraction stands for are at the point itself, where the power of ten is exact, or
are read rightly. They are its multiples, and those halved. -/
def harmless (e : ℤ) (num den p q : ℕ) : Bool :=
  !decide (IsClose num den p q) || (p * den == num * q && e.natAbs ≤ 22) ||
    (List.range (2 ^ 24 / q)).all fun k => (List.range 25).all fun j =>
      (k + 1) * q % 2 ^ j != 0 || rereads ((k + 1) * q / 2 ^ j) e

def powerNum (e t : ℤ) : ℕ := 10 ^ e.toNat * 2 ^ (-t).toNat

def powerDen (e t : ℤ) : ℕ := 10 ^ (-e).toNat * 2 ^ t.toNat

/-- The neighbours of `10 ^ e / 2 ^ t`. -/
def neighbours (e t : ℤ) : Neighbours :=
  let floor := powerNum e t / powerDen e t
  Neighbours.search (powerNum e t) (powerDen e t) (2 ^ 24) 20 ⟨floor, 1, floor + 1, 1⟩

def checked (e t : ℤ) : Bool :=
  let n := neighbours e t
  decide (n.Around (powerNum e t) (powerDen e t) (2 ^ 24)) && harmless e (powerNum e t) (powerDen e t) n.p n.q &&
    harmless e (powerNum e t) (powerDen e t) n.r n.s

/-- The exponent of the leading bit of a power of ten. -/
def leadingBit (e : ℤ) : ℤ := if 0 ≤ e then (10 ^ e.toNat).log2 else -((10 ^ (-e).toNat).log2 + 1)

theorem all_checked : ∀ i : ℕ, i < 92 → ∀ j : ℕ, j < 4 →
    checked ((i : ℤ) - 53) (leadingBit ((i : ℤ) - 53) + j - 2) = true := by decide +kernel

theorem leadingBit_spec (e : ℤ) : (2 : ℚ) ^ leadingBit e ≤ 10 ^ e ∧ (10 : ℚ) ^ e ≤ 2 ^ (leadingBit e + 1) := by
  have bits : ∀ k : ℕ, (2 : ℚ) ^ (10 ^ k).log2 ≤ 10 ^ k ∧ (10 : ℚ) ^ k ≤ 2 ^ ((10 ^ k).log2 + 1) := by
    intro k
    constructor
    · exact_mod_cast Nat.log2_self_le (by positivity)
    · exact_mod_cast Nat.lt_log2_self.le
  unfold leadingBit
  split
  · next up =>
    obtain ⟨k, rfl⟩ := Int.eq_ofNat_of_zero_le up
    rw [Int.toNat_natCast]
    exact_mod_cast bits k
  · next down =>
    obtain ⟨k, rfl⟩ : ∃ k : ℕ, e = -k := ⟨(-e).toNat, by omega⟩
    obtain ⟨low, high⟩ := bits k
    rw [neg_neg, Int.toNat_natCast, show -(((10 ^ k : ℕ).log2 : ℤ) + 1) + 1 = -((10 ^ k : ℕ).log2 : ℤ) by ring, zpow_neg,
      zpow_neg, zpow_neg, zpow_natCast, zpow_natCast]
    constructor
    · refine inv_anti₀ (by positivity) ?_
      exact_mod_cast high
    · exact inv_anti₀ (by positivity) low

theorem exists_full {k n : ℕ} (pos : 0 < n) (le : n ≤ 2 ^ k) : ∃ j, 2 ^ k < 2 * (n * 2 ^ j) ∧ n * 2 ^ j ≤ 2 ^ k := by
  induction k with
  | zero => exact ⟨0, by omega, by omega⟩
  | succ k ih =>
    rcases Nat.lt_or_ge (2 ^ k) n with large | small
    · refine ⟨0, ?_, by omega⟩
      rw [pow_succ]
      omega
    · obtain ⟨j, low, high⟩ := ih small
      have double : n * 2 ^ (j + 1) = 2 * (n * 2 ^ j) := by rw [pow_succ]; ring
      refine ⟨j + 1, ?_, ?_⟩
      · rw [double, pow_succ]
        omega
      · rw [double, pow_succ]
        omega

/-- What the search has found to be harmless for a fraction holds for a decimal that it stands for. -/
theorem of_harmless {e : ℤ} {j : ℕ} (ok : harmless e num den p q = true) (close : IsClose num den h (d * 2 ^ j))
    (same : h * q = p * (d * 2 ^ j)) (divides : q ∣ d * 2 ^ j) (pos : 0 < d) (small : d * 2 ^ j ≤ 2 ^ 24) :
    (p * den = num * q ∧ e.natAbs ≤ 22) ∨ rereads d e = true := by
  have positive : 0 < d * 2 ^ j := by positivity
  have isClose := close.of_same positive same
  unfold harmless at ok
  rw [decide_eq_true isClose, Bool.not_true, Bool.false_or, Bool.or_eq_true, Bool.and_eq_true, beq_iff_eq,
    decide_eq_true_eq] at ok
  rcases ok with exact | all
  · exact Or.inl exact
  · right
    obtain ⟨k, multiple⟩ := divides
    have qpos : 0 < q := Nat.pos_of_ne_zero (by rintro rfl; omega)
    have kpos : 0 < k := Nat.pos_of_ne_zero (by rintro rfl; omega)
    have few : k - 1 < 2 ^ 24 / q := by
      have : k ≤ 2 ^ 24 / q := (Nat.le_div_iff_mul_le qpos).mpr (by rw [mul_comm, ← multiple]; exact small)
      omega
    have shifts : j < 25 := by
      by_contra many
      have := Nat.pow_le_pow_right (show 0 < 2 by decide) (not_lt.mp many)
      have := Nat.mul_le_mul pos this
      omega
    have here := List.all_eq_true.mp (List.all_eq_true.mp all (k - 1) (List.mem_range.mpr few)) j
      (List.mem_range.mpr shifts)
    rw [Nat.sub_add_cancel kpos, mul_comm k q, ← multiple, Nat.mul_mod_left, Nat.mul_div_cancel _ (by positivity)]
      at here
    simpa using here

/-- A close fraction with a full numerator and a full denominator is between a half and eight. -/
theorem moderate_of_close (close : IsClose num den h d) (pos : 0 < den) (hfull : 2 ^ 25 < 2 * h) (hmost : h ≤ 2 ^ 25)
    (dfull : 2 ^ 24 < 2 * d) (dmost : d ≤ 2 ^ 24) : den < 2 * num ∧ num < 8 * den := by
  obtain ⟨upper, lower⟩ := close
  have dpos : 0 < d := by omega
  constructor
  · have less : d * den < h * den := Nat.mul_lt_mul_of_pos_right (by omega) pos
    refine Nat.lt_of_mul_lt_mul_right (a := d) ?_
    nlinarith
  · have less : h * den < 4 * d * den := Nat.mul_lt_mul_of_pos_right (by omega) pos
    refine Nat.lt_of_mul_lt_mul_right (a := d) ?_
    nlinarith

theorem powerDen_pos (e t : ℤ) : 0 < powerDen e t := by
  unfold powerDen
  positivity

theorem power_ratio (e t : ℤ) : (10 : ℚ) ^ e * powerDen e t = powerNum e t * 2 ^ t := by
  unfold powerNum powerDen
  rw [zpow_eq_div (by norm_num) e, zpow_eq_div (by norm_num) t]
  push_cast
  field_simp

/-- A power of two that is moderately far from a power of ten is one of four. -/
theorem checked_of_moderate {e t : ℤ} (low : -53 ≤ e) (high : e ≤ 38) (least : powerDen e t < 2 * powerNum e t)
    (most : powerNum e t < 8 * powerDen e t) : checked e t = true := by
  have dpos : (0 : ℚ) < powerDen e t := by exact_mod_cast powerDen_pos e t
  have tpos := two_zpow_pos t
  have ratio := power_ratio e t
  obtain ⟨bitLow, bitHigh⟩ := leadingBit_spec e
  have least : (powerDen e t : ℚ) < 2 * powerNum e t := by exact_mod_cast least
  have most : (powerNum e t : ℚ) < 8 * powerDen e t := by exact_mod_cast most
  have above : (2 : ℚ) ^ t < 2 * 10 ^ e := by
    refine lt_of_mul_lt_mul_right ?_ dpos.le
    linarith [mul_lt_mul_of_pos_right least tpos]
  have below : (10 : ℚ) ^ e < 8 * 2 ^ t := by
    refine lt_of_mul_lt_mul_right ?_ dpos.le
    linarith [mul_lt_mul_of_pos_right most tpos]
  have lower : leadingBit e < t + 3 := by
    refine (zpow_lt_zpow_iff_right₀ (show (1 : ℚ) < 2 by norm_num)).mp (bitLow.trans_lt (below.trans_eq ?_))
    rw [zpow_add₀ (by norm_num)]
    norm_num
    ring
  have upper : t < leadingBit e + 2 := by
    refine (zpow_lt_zpow_iff_right₀ (show (1 : ℚ) < 2 by norm_num)).mp (above.trans_le ?_)
    rw [show leadingBit e + 2 = leadingBit e + 1 + 1 by ring, two_zpow_succ (leadingBit e + 1)]
    linarith
  have here := all_checked (e + 53).toNat (by omega) (t - leadingBit e + 2).toNat (by omega)
  rwa [show ((e + 53).toNat : ℤ) - 53 = e by omega,
    show leadingBit e + ((t - leadingBit e + 2).toNat : ℤ) - 2 = t by omega] at here

/-- A decimal of at most 24 bits that two roundings could bring to a point of at most 25 bits is at the point
itself, and then the power of ten is exact, or else it is one of the few that are read rightly all the same. -/
theorem near_midpoint {d h : ℕ} {e t : ℤ} (dpos : 0 < d) (dsmall : d ≤ 2 ^ 24) (hpos : 0 < h) (hsmall : h ≤ 2 ^ 25)
    (low : -53 ≤ e) (high : e ≤ 38) (near : |h * (2 : ℚ) ^ t - d * 10 ^ e| ≤ d * 10 ^ e / 2 ^ 51) :
    ((d : ℚ) * 10 ^ e = h * 2 ^ t ∧ e.natAbs ≤ 22) ∨ rereads d e = true := by
  -- Both numbers are brought to full width.
  obtain ⟨j, dfull, dmost⟩ := exists_full dpos dsmall
  obtain ⟨i, hfull, hmost⟩ := exists_full hpos hsmall
  let u : ℤ := t - i + j
  have upos := two_zpow_pos u
  have jpos : (0 : ℚ) < 2 ^ j := by positivity
  have point : ((h * 2 ^ i : ℕ) : ℚ) * 2 ^ u = h * 2 ^ t * 2 ^ j := by
    simp only [u]
    rw [zpow_add₀ (by norm_num), zpow_sub₀ (by norm_num), zpow_natCast, zpow_natCast]
    push_cast
    field_simp
  have den := powerDen_pos e u
  have dpos' : (0 : ℚ) < powerDen e u := by exact_mod_cast den
  have ratio := power_ratio e u
  -- Their quotient is close to the quotient of the powers.
  have scaledPoint : (h * 2 ^ t * 2 ^ j : ℚ) * powerDen e u = (h * 2 ^ i * powerDen e u : ℕ) * 2 ^ u := by
    rw [← point]
    push_cast
    ring
  have scaledDecimal : (d * 10 ^ e * 2 ^ j : ℚ) * powerDen e u = (powerNum e u * (d * 2 ^ j) : ℕ) * 2 ^ u := by
    push_cast
    linear_combination (d * 2 ^ j : ℚ) * ratio
  obtain ⟨nearLow, nearHigh⟩ := abs_le.mp near
  have close : IsClose (powerNum e u) (powerDen e u) (h * 2 ^ i) (d * 2 ^ j) := by
    have factor : (0 : ℚ) < 2 ^ j * powerDen e u := by positivity
    constructor
    · have := mul_le_mul_of_nonneg_right nearHigh factor.le
      have : (2 : ℚ) ^ 51 * ((h * 2 ^ i * powerDen e u : ℕ) * 2 ^ u)
          ≤ (2 ^ 51 * (powerNum e u * (d * 2 ^ j) : ℕ) + (powerNum e u * (d * 2 ^ j) : ℕ)) * 2 ^ u := by
        rw [add_mul, mul_assoc (2 ^ 51), ← scaledPoint, ← scaledDecimal]
        linarith
      rw [← mul_assoc] at this
      exact_mod_cast le_of_mul_le_mul_right this upos
    · have := mul_le_mul_of_nonneg_right nearLow factor.le
      have : (2 : ℚ) ^ 51 * ((powerNum e u * (d * 2 ^ j) : ℕ) * 2 ^ u)
          ≤ (2 ^ 51 * (h * 2 ^ i * powerDen e u : ℕ) + (powerNum e u * (d * 2 ^ j) : ℕ)) * 2 ^ u := by
        rw [add_mul, mul_assoc (2 ^ 51), ← scaledPoint, ← scaledDecimal]
        linarith
      rw [← mul_assoc] at this
      exact_mod_cast le_of_mul_le_mul_right this upos
  obtain ⟨least, most⟩ := moderate_of_close close den hfull hmost dfull dmost
  have ok := checked_of_moderate low high least most
  simp only [checked, Bool.and_eq_true, decide_eq_true_eq] at ok
  obtain ⟨⟨around, left⟩, right⟩ := ok
  -- So it is one of the two fractions, and an equal fraction means an equal number.
  have at_point : ∀ {p q : ℕ}, 0 < q → h * 2 ^ i * q = p * (d * 2 ^ j) →
      p * powerDen e u = powerNum e u * q → (d : ℚ) * 10 ^ e = h * 2 ^ t := by
    intro p q qpos same exact
    have equal : (powerNum e u * (d * 2 ^ j) : ℕ) = h * 2 ^ i * powerDen e u := by
      refine Nat.eq_of_mul_eq_mul_right qpos ?_
      calc powerNum e u * (d * 2 ^ j) * q = powerNum e u * q * (d * 2 ^ j) := by ring
        _ = p * (d * 2 ^ j) * powerDen e u := by rw [← exact]; ring
        _ = h * 2 ^ i * powerDen e u * q := by rw [← same]; ring
    have factor : (0 : ℚ) < 2 ^ j * powerDen e u := by positivity
    refine mul_right_cancel₀ factor.ne' ?_
    rw [← mul_assoc, ← mul_assoc, scaledDecimal, scaledPoint, equal]
  have small : d * 2 ^ j ≤ 2 ^ 24 := dmost
  rcases around.same_of_close close small most with same | same
  · have divides := around.dvd_left same
    have qpos : 0 < (neighbours e u).q := Nat.pos_of_dvd_of_pos divides (by positivity)
    exact (of_harmless left close same divides dpos small).imp_left fun ⟨exact, few⟩ => ⟨at_point qpos same exact, few⟩
  · have divides := around.dvd_right same
    have qpos : 0 < (neighbours e u).s := Nat.pos_of_dvd_of_pos divides (by positivity)
    exact (of_harmless right close same divides dpos small).imp_left fun ⟨exact, few⟩ => ⟨at_point qpos same exact, few⟩

end Toolpath.Json

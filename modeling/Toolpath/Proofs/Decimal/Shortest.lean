import Toolpath.Proofs.Decimal.Digits

/-!
# The shortest digits read back

What the search finds lies between the two ends of the magnitude. For single precision it is found among the
first nine grids, and but for the least significands of full width it is as near as the grid allows.
-/

namespace Toolpath.Decimal

open Binary

variable {f : Format} {tie : Tie} {m : Magnitude} {e : ℤ} {n : ℕ}

theorem scaled_den_pos (n : ℕ) (e : ℤ) : 0 < (scaled n e).den := by
  change 0 < 10 ^ _
  positivity

theorem value_scaled (n : ℕ) (e : ℤ) : (scaled n e).value = n * 10 ^ e := by
  change ((n * 10 ^ e.toNat : ℕ) : ℚ) / ((10 ^ (-e).toNat : ℕ) : ℚ) = _
  rw [zpow_eq_div (by norm_num) e]
  push_cast
  ring

/-- The lower of the two neighbours on a grid. -/
def floorOn (m : Magnitude) (e : ℤ) : ℕ :=
  m.ratio.num * (scaled 1 e).den / (m.ratio.den * (scaled 1 e).num)

theorem floorOn_spec (m : Magnitude) (e : ℤ) :
    floorOn m e * (10 : ℚ) ^ e ≤ m.value ∧ m.value < (floorOn m e + 1) * 10 ^ e := by
  have den : (0 : ℚ) < m.ratio.den := by exact_mod_cast Magnitude.ratio_den_pos m
  have unit := value_scaled 1 e
  have uden : (0 : ℚ) < (scaled 1 e).den := by exact_mod_cast scaled_den_pos 1 e
  have epos := ten_zpow_pos e
  have unum : (0 : ℚ) < (scaled 1 e).num := by
    rw [Ratio.value, div_eq_iff uden.ne'] at unit
    rw [unit]
    positivity
  have pos : 0 < m.ratio.den * (scaled 1 e).num := by exact_mod_cast mul_pos den unum
  have ten : (10 : ℚ) ^ e = (scaled 1 e).num / (scaled 1 e).den := by
    rw [← Ratio.value, unit, Nat.cast_one, one_mul]
  have low := Nat.div_mul_le_self (m.ratio.num * (scaled 1 e).den) (m.ratio.den * (scaled 1 e).num)
  have high := Nat.lt_div_mul_add (a := m.ratio.num * (scaled 1 e).den) pos
  rw [← Magnitude.value_ratio, ten, Ratio.value]
  change floorOn m e * _ ≤ _ at low
  change _ < floorOn m e * _ + _ at high
  have low : (floorOn m e : ℚ) * (m.ratio.den * (scaled 1 e).num) ≤ m.ratio.num * (scaled 1 e).den := by
    exact_mod_cast low
  have high : (m.ratio.num : ℚ) * (scaled 1 e).den < floorOn m e * (m.ratio.den * (scaled 1 e).num)
      + m.ratio.den * (scaled 1 e).num := by exact_mod_cast high
  constructor
  · rw [mul_div_assoc', div_le_div_iff₀ uden den]
    linarith
  · rw [mul_div_assoc', div_lt_div_iff₀ den uden]
    linarith

section Grid

variable (pos : 0 < m.significand)
include pos

theorem reads_scaled (n : ℕ) (e : ℤ) : f.readsBack m (scaled n e) = true ↔ f.Reads m (n * 10 ^ e) := by
  rw [Format.readsBack_iff pos (scaled_den_pos n e), value_scaled]

/-- What is found on a grid is one of the two neighbours, and reads back. Where both do, it is the nearer. -/
theorem onGrid?_cases (found : onGrid? f tie m e = some n) :
    f.Reads m (n * 10 ^ e) ∧
      ((n = floorOn m e ∧ (f.Reads m ((floorOn m e + 1 : ℕ) * 10 ^ e) →
          2 * m.value ≤ (2 * floorOn m e + 1) * 10 ^ e)) ∨
        (n = floorOn m e + 1 ∧ (f.Reads m (floorOn m e * 10 ^ e) →
          (2 * floorOn m e + 1) * 10 ^ e ≤ 2 * m.value))) := by
  have doubleValue : Ratio.value ⟨2 * m.ratio.num, m.ratio.den⟩ = 2 * m.value := by
    rw [← Magnitude.value_ratio, Ratio.value, Ratio.value]
    push_cast
    ring
  have middleValue := value_scaled (2 * floorOn m e + 1) e
  push_cast at middleValue
  have lowReads := reads_scaled (f := f) pos (floorOn m e) e
  have highReads := reads_scaled (f := f) pos (floorOn m e + 1) e
  have isBelow := Ratio.below_iff (a := ⟨2 * m.ratio.num, m.ratio.den⟩) (Magnitude.ratio_den_pos m)
    (scaled_den_pos (2 * floorOn m e + 1) e)
  have isAbove := Ratio.below_iff (scaled_den_pos (2 * floorOn m e + 1) e)
    (b := ⟨2 * m.ratio.num, m.ratio.den⟩) (Magnitude.ratio_den_pos m)
  rw [doubleValue, middleValue] at isBelow isAbove
  unfold onGrid? at found
  dsimp only at found
  rw [show m.ratio.num * (scaled 1 e).den / (m.ratio.den * (scaled 1 e).num) = floorOn m e from rfl] at found
  generalize floorOn m e = low at *
  cases lowBack : f.readsBack m (scaled low e) with
  | true =>
    have lowIn := lowReads.mp lowBack
    cases highBack : f.readsBack m (scaled (low + 1) e) with
    | true =>
      have highIn := highReads.mp highBack
      rw [lowBack, highBack, Bool.and_self, if_pos rfl] at found
      by_cases below : Ratio.below ⟨2 * m.ratio.num, m.ratio.den⟩ (scaled (2 * low + 1) e) = true
      · rw [if_pos below, Option.some.injEq] at found
        subst found
        exact ⟨lowIn, Or.inl ⟨rfl, fun _ => (isBelow.mp below).le⟩⟩
      · rw [if_neg below] at found
        by_cases above : Ratio.below (scaled (2 * low + 1) e) ⟨2 * m.ratio.num, m.ratio.den⟩ = true
        · rw [if_pos above, Option.some.injEq] at found
          subst found
          exact ⟨highIn, Or.inr ⟨rfl, fun _ => (isAbove.mp above).le⟩⟩
        · rw [if_neg above] at found
          have notBelow := not_lt.mp (mt isBelow.mpr below)
          have notAbove := not_lt.mp (mt isAbove.mpr above)
          have either : n = low ∨ n = low + 1 := by
            cases tie with
            | up => exact Or.inr (Option.some.inj found).symm
            | toEven =>
              have chosen := Option.some.inj found
              split at chosen
              · exact Or.inl chosen.symm
              · exact Or.inr chosen.symm
          rcases either with rfl | rfl
          · exact ⟨lowIn, Or.inl ⟨rfl, fun _ => notAbove⟩⟩
          · exact ⟨highIn, Or.inr ⟨rfl, fun _ => notBelow⟩⟩
    | false =>
      rw [lowBack, highBack, Bool.and_false, if_neg Bool.false_ne_true, if_pos rfl, Option.some.injEq] at found
      subst found
      exact ⟨lowIn, Or.inl ⟨rfl, fun back => by rw [highReads.mpr back] at highBack; cases highBack⟩⟩
  | false =>
    rw [lowBack, Bool.false_and, if_neg Bool.false_ne_true, if_neg Bool.false_ne_true] at found
    split at found
    · next highBack =>
      rw [Option.some.injEq] at found
      subst found
      exact ⟨highReads.mp highBack, Or.inr ⟨rfl, fun back => by rw [lowReads.mpr back] at lowBack; cases lowBack⟩⟩
    · cases found

/-- Between ends that are equally far away, what is found on a grid is within half its unit. -/
theorem onGrid?_near (symmetric : f.narrowBelow m = false) (found : onGrid? f tie m e = some n) :
    |n * (10 : ℚ) ^ e - m.value| ≤ 10 ^ e / 2 := by
  obtain ⟨low, high⟩ := floorOn_spec m e
  obtain ⟨reads, choice⟩ := onGrid?_cases pos found
  have lowEnd : f.lowEnd m = m.value - 2 ^ m.exponent / 2 := by
    rw [Format.lowEnd, symmetric, if_neg Bool.false_ne_true, Magnitude.value]
    ring
  have highEnd : Format.highEnd m = m.value + 2 ^ m.exponent / 2 := by
    rw [Format.highEnd, Magnitude.value]
    ring
  have gap := two_zpow_pos m.exponent
  have unit := ten_zpow_pos e
  have below := reads.low
  have above := reads.high
  rw [lowEnd] at below
  rw [highEnd] at above
  rcases choice with ⟨rfl, nearer⟩ | ⟨rfl, nearer⟩
  · -- Were the upper neighbour nearer, it would read back as well.
    have middle : 2 * m.value ≤ (2 * floorOn m e + 1) * 10 ^ e := by
      by_contra farther
      have farther := not_le.mp farther
      refine farther.not_ge (nearer ⟨?_, ?_, fun _ => ⟨ne_of_lt ?_, ne_of_lt ?_⟩⟩)
      all_goals
        push_cast
        first | rw [lowEnd] | rw [highEnd]
        linarith
    rw [abs_le]
    constructor <;> linarith
  · have middle : (2 * floorOn m e + 1) * 10 ^ e ≤ 2 * m.value := by
      by_contra farther
      have farther := not_le.mp farther
      push_cast at above
      refine farther.not_ge (nearer ⟨?_, ?_, fun _ => ⟨ne_of_lt ?_, ne_of_lt ?_⟩⟩)
      all_goals
        first | rw [lowEnd] | rw [highEnd]
        linarith
    push_cast
    rw [abs_le]
    constructor <;> linarith

omit pos in
theorem reads_none (none : onGrid? f tie m e = none) :
    f.readsBack m (scaled (floorOn m e) e) = false ∧ f.readsBack m (scaled (floorOn m e + 1) e) = false := by
  unfold onGrid? at none
  dsimp only at none
  rw [show m.ratio.num * (scaled 1 e).den / (m.ratio.den * (scaled 1 e).num) = floorOn m e from rfl] at none
  cases lowBack : f.readsBack m (scaled (floorOn m e) e) with
  | true =>
    rw [lowBack, Bool.true_and] at none
    cases tie <;> split_ifs at none <;> contradiction
  | false =>
    cases highBack : f.readsBack m (scaled (floorOn m e + 1) e) with
    | true =>
      rw [lowBack, highBack, Bool.and_true] at none
      split_ifs at none <;> contradiction
    | false => exact ⟨rfl, rfl⟩

/-- One of the neighbours on a fine grid reads back. -/
theorem onGrid?_isSome (fine : (10 : ℚ) ^ e < 3 / 4 * 2 ^ m.exponent) : (onGrid? f tie m e).isSome = true := by
  obtain ⟨low, high⟩ := floorOn_spec m e
  have gap := two_zpow_pos m.exponent
  have lowEnd : f.lowEnd m ≤ m.value - 2 ^ m.exponent / 4 := by
    rw [Format.lowEnd, Magnitude.value, sub_mul]
    split <;> linarith
  have highEnd : Format.highEnd m = m.value + 2 ^ m.exponent / 2 := by
    rw [Format.highEnd, Magnitude.value]
    ring
  have either : f.Reads m (floorOn m e * 10 ^ e) ∨ f.Reads m ((floorOn m e + 1 : ℕ) * 10 ^ e) := by
    by_cases near : m.value - 2 ^ m.exponent / 4 < floorOn m e * 10 ^ e
    · refine Or.inl ⟨?_, ?_, fun _ => ⟨ne_of_lt ?_, ne_of_lt ?_⟩⟩
      · linarith
      · linarith
      · linarith
      · linarith
    · have near := not_lt.mp near
      refine Or.inr ⟨?_, ?_, fun _ => ⟨ne_of_lt ?_, ne_of_lt ?_⟩⟩
      all_goals
        push_cast
        linarith
  rw [← reads_scaled pos, ← reads_scaled pos] at either
  cases found : onGrid? f tie m e with
  | some n => rfl
  | none =>
    obtain ⟨lowBack, highBack⟩ := reads_none found
    rw [lowBack, highBack] at either
    rcases either with back | back <;> cases back

end Grid

/-! ### The search -/

theorem exactDigits_eq (pos : 0 < m.significand) :
    ∃ (n : ℕ) (e : ℤ), exactDigits m = .ofScaled n e ∧ (n : ℚ) * 10 ^ e = m.value := by
  unfold exactDigits
  split
  · next whole =>
    refine ⟨_, _, rfl, ?_⟩
    rw [← Magnitude.value_ratio, Ratio.value, zpow_zero, mul_one]
    have none : (-m.exponent).toNat = 0 := by omega
    simp only [Magnitude.ratio, none]
    simp
  · next fraction =>
    refine ⟨_, _, rfl, ?_⟩
    obtain ⟨k, exponent⟩ : ∃ k : ℕ, m.exponent = -k := ⟨m.exponent.natAbs, by omega⟩
    rw [Magnitude.value, exponent, Int.natAbs_neg, Int.natAbs_natCast, zpow_neg, zpow_neg, zpow_natCast,
      zpow_natCast, show (10 : ℚ) = 5 * 2 by norm_num, mul_pow]
    change ((m.significand * 5 ^ k : ℕ) : ℚ) * _ = _
    push_cast
    field_simp

theorem shortest_reads (f : Format) (tie : Tie) (pos : 0 < m.significand) :
    ∃ (n : ℕ) (e : ℤ), 0 < n ∧ f.Reads m (n * 10 ^ e) ∧ shortest f tie m = .ofScaled n e := by
  have positive : ∀ {n : ℕ} {e : ℤ}, f.Reads m (n * 10 ^ e) → 0 < n := by
    intro n e reads
    have := pos_of_mul_pos_left (reads.pos pos) (ten_zpow_pos e).le
    exact_mod_cast this
  unfold shortest
  dsimp only
  cases found : (List.range 17).findSome? _ with
  | none =>
    obtain ⟨n, e, digits, exact⟩ := exactDigits_eq pos
    have reads : f.Reads m (n * 10 ^ e) := exact ▸ Format.reads_value f m
    exact ⟨n, e, positive reads, reads, digits⟩
  | some d =>
    obtain ⟨count, _, grid⟩ := List.exists_of_findSome?_eq_some found
    obtain ⟨n, here, digits⟩ := Option.map_eq_some_iff.mp grid
    have reads := (onGrid?_cases pos here).1
    exact ⟨n, _, positive reads, reads, digits.symm⟩

/-! ### Single precision -/

theorem scaleFrom_spec (r : Ratio) (den : 0 < r.den) (fuel : ℕ) (e : ℤ) :
    (scaleFrom r fuel e = e ∨ (10 : ℚ) ^ (scaleFrom r fuel e - 1) ≤ r.value) ∧
      (r.value < 10 ^ (e + fuel) → r.value < 10 ^ scaleFrom r fuel e) := by
  induction fuel generalizing e with
  | zero => simp [scaleFrom]
  | succ fuel ih =>
    have below := Ratio.below_iff den (scaled_den_pos 1 e)
    rw [value_scaled, Nat.cast_one, one_mul] at below
    unfold scaleFrom
    split
    · next less => exact ⟨Or.inl rfl, fun _ => below.mp less⟩
    · next notLess =>
      have least := not_lt.mp (mt below.mpr notLess)
      obtain ⟨same | lower, upper⟩ := ih (e + 1)
      · refine ⟨Or.inr ?_, fun less => upper ?_⟩
        · rw [same, add_sub_cancel_right]
          exact least
        · rwa [show e + 1 + (fuel : ℤ) = e + (fuel + 1 : ℕ) by push_cast; ring]
      · refine ⟨Or.inr lower, fun less => upper ?_⟩
        rwa [show e + 1 + (fuel : ℤ) = e + (fuel + 1 : ℕ) by push_cast; ring]

/-- The estimate of a scale from the exponent of the leading bit. -/
def estimate (log : ℤ) : ℤ := Int.fdiv (log * 30103) 100000 - 1

/-- The estimate is a scale too low or up to three. -/
def EstimateHolds (log : ℤ) : Prop :=
  10 ^ (estimate log - 1).toNat * 2 ^ (-log).toNat ≤ 2 ^ log.toNat * 10 ^ (-(estimate log - 1)).toNat ∧
    2 ^ (log + 1).toNat * 10 ^ (-(estimate log + 4)).toNat ≤ 10 ^ (estimate log + 4).toNat * 2 ^ (-(log + 1)).toNat

instance (log : ℤ) : Decidable (EstimateHolds log) := inferInstanceAs (Decidable (_ ∧ _))

theorem estimateHolds : ∀ i : ℕ, i < 277 → EstimateHolds ((i : ℤ) - 149) := by decide +kernel

theorem pow_le_pow_of_nat {a b : ℤ} {x y : ℕ} (hx : 0 < x) (hy : 0 < y)
    (le : x ^ a.toNat * y ^ (-b).toNat ≤ y ^ b.toNat * x ^ (-a).toNat) : (x : ℚ) ^ a ≤ (y : ℚ) ^ b := by
  have px : (0 : ℚ) < x := by exact_mod_cast hx
  have py : (0 : ℚ) < y := by exact_mod_cast hy
  rw [zpow_eq_div px.ne', zpow_eq_div py.ne', div_le_div_iff₀ (by positivity) (by positivity)]
  exact_mod_cast le

theorem scaleOf_spec (fits : single.Fits m) (pos : 0 < m.significand) :
    (10 : ℚ) ^ (scaleOf m - 1) ≤ m.value ∧ m.value < 10 ^ scaleOf m := by
  have narrow : m.significand < 2 ^ 24 := fits.narrow
  have lowest : -149 ≤ m.exponent := fits.lowest
  have highest : m.exponent ≤ 104 := fits.highest
  have log : m.significand.log2 < 24 := (Nat.log2_lt pos.ne').mpr narrow
  have holds := estimateHolds (m.significand.log2 + m.exponent + 149).toNat (by omega)
  rw [show ((m.significand.log2 + m.exponent + 149).toNat : ℤ) - 149 = m.significand.log2 + m.exponent by omega]
    at holds
  have split := zpow_add₀ (show (2 : ℚ) ≠ 0 by norm_num) (m.significand.log2 : ℤ) m.exponent
  rw [zpow_natCast] at split
  have epos := two_zpow_pos m.exponent
  have above : (2 : ℚ) ^ ((m.significand.log2 : ℤ) + m.exponent) ≤ m.value := by
    rw [split]
    exact mul_le_mul_of_nonneg_right (by exact_mod_cast Nat.log2_self_le pos.ne') epos.le
  have below : m.value < 2 ^ ((m.significand.log2 : ℤ) + m.exponent + 1) := by
    rw [two_zpow_succ, split, ← mul_assoc, ← pow_succ']
    exact mul_lt_mul_of_pos_right (by exact_mod_cast Nat.lt_log2_self) epos
  have low := pow_le_pow_of_nat (x := 10) (y := 2) (by decide) (by decide) holds.1
  have high := pow_le_pow_of_nat (x := 2) (y := 10) (by decide) (by decide) holds.2
  have found := scaleFrom_spec m.ratio (Magnitude.ratio_den_pos m) 4 (estimate (m.significand.log2 + m.exponent))
  rw [Magnitude.value_ratio] at found
  change (scaleOf m = _ ∨ _ ≤ _) ∧ (_ → m.value < 10 ^ scaleOf m) at found
  push_cast at low high found
  refine ⟨?_, found.2 (below.trans_le high)⟩
  rcases found.1 with same | least
  · rw [same]
    exact low.trans above
  · exact least

/-- The digits of a single-precision number are on a grid of at most nine digits. -/
theorem shortest_single (tie : Tie) (fits : single.Fits m) (pos : 0 < m.significand) :
    ∃ (n : ℕ) (e : ℤ), 0 < n ∧ n ≤ 10 ^ 9 ∧ onGrid? single tie m e = some n ∧
      shortest single tie m = .ofScaled n e := by
  obtain ⟨low, high⟩ := scaleOf_spec fits pos
  have narrow : (m.significand : ℚ) < 2 ^ 24 := by
    have : m.significand < 2 ^ 24 := fits.narrow
    exact_mod_cast this
  have fine : (10 : ℚ) ^ (scaleOf m - 9) < 3 / 4 * 2 ^ m.exponent := by
    have epos := two_zpow_pos m.exponent
    have small : m.value < 2 ^ 24 * 2 ^ m.exponent := mul_lt_mul_of_pos_right narrow epos
    have split : (10 : ℚ) ^ (scaleOf m - 1) = 10 ^ (scaleOf m - 9) * 10 ^ 8 := by
      rw [← zpow_natCast, ← ten_zpow_add]
      congr 1
      omega
    rw [split] at low
    linarith
  obtain ⟨last, isLast⟩ := Option.isSome_iff_exists.mp (@onGrid?_isSome single tie _ _ pos fine)
  let attempt : ℕ → Option Digits := fun count =>
    (onGrid? single tie m (scaleOf m - (count + 1 : ℕ))).map fun n =>
      Digits.ofScaled n (scaleOf m - (count + 1 : ℕ))
  have early : ((List.range 9).findSome? attempt).isSome = true := by
    rw [List.findSome?_isSome_iff]
    refine ⟨8, by decide, ?_⟩
    simp only [attempt, Option.isSome_map]
    exact Option.isSome_iff_exists.mpr ⟨last, isLast⟩
  obtain ⟨d, found⟩ := Option.isSome_iff_exists.mp early
  have whole : shortest single tie m = d := by
    change ((List.range 17).findSome? attempt).getD _ = d
    rw [show List.range 17 = List.range 9 ++ [9, 10, 11, 12, 13, 14, 15, 16] from rfl, List.findSome?_append, found]
    rfl
  obtain ⟨count, member, grid⟩ := List.exists_of_findSome?_eq_some found
  obtain ⟨n, here, digits⟩ := Option.map_eq_some_iff.mp grid
  have few : count < 9 := List.mem_range.mp member
  obtain ⟨reads, choice⟩ := onGrid?_cases pos here
  refine ⟨n, _, ?_, ?_, here, whole.trans digits.symm⟩
  · have := pos_of_mul_pos_left (reads.pos pos) (ten_zpow_pos _).le
    exact_mod_cast this
  · have floor := (floorOn_spec m (scaleOf m - (count + 1 : ℕ))).1
    have less := floor.trans_lt high
    have split : (10 : ℚ) ^ scaleOf m = 10 ^ (count + 1) * 10 ^ (scaleOf m - (count + 1 : ℕ)) := by
      rw [← zpow_natCast, ← ten_zpow_add]
      congr 1
      omega
    rw [split] at less
    have less : floorOn m (scaleOf m - (count + 1 : ℕ)) < 10 ^ (count + 1) := by
      exact_mod_cast lt_of_mul_lt_mul_right less (ten_zpow_pos _).le
    have power : 10 ^ (count + 1) ≤ 10 ^ 9 := Nat.pow_le_pow_right (by decide) (by omega)
    rcases choice with ⟨rfl, _⟩ | ⟨rfl, _⟩ <;> omega

end Toolpath.Decimal

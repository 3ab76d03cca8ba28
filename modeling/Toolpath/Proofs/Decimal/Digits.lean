import Toolpath.Decimal.Style
import Toolpath.Proofs.Binary.Value

/-!
# The value of digits and numerals

However digits are laid out, the numeral has their value, and it is written as both readers want it: at least
one digit before the point, no zero in front of other digits, and at least one digit after a point.
-/

namespace Toolpath.Decimal

open Binary

theorem ten_zpow_pos (e : ℤ) : (0 : ℚ) < 10 ^ e := zpow_pos (by norm_num) e

theorem ten_zpow_add (a b : ℤ) : (10 : ℚ) ^ (a + b) = 10 ^ a * 10 ^ b := zpow_add₀ (by norm_num) a b

/-! ### Rows of digits -/

theorem ofDigits_eq (ds : List Char) : ofDigits ds = Nat.ofDigitChars 10 ds 0 := Nat.ofDigitChars_eq_foldl.symm

theorem ofDigits_append (as bs : List Char) :
    ofDigits (as ++ bs) = 10 ^ bs.length * ofDigits as + ofDigits bs := by
  simp only [ofDigits_eq, Nat.ofDigitChars_append]
  exact Nat.ofDigitChars_eq_ofDigitChars_zero

theorem ofDigits_digitsOf (n : ℕ) : ofDigits (digitsOf n) = n := by
  rw [ofDigits_eq, digitsOf, Nat.ofDigitChars_ten_toDigits]

theorem ofDigits_zeros (k : ℕ) : ofDigits (zeros k) = 0 := by
  rw [ofDigits_eq, zeros, Nat.ofDigitChars_replicate_zero, mul_zero]

theorem ofDigits_zeros_append (k : ℕ) (ds : List Char) : ofDigits (zeros k ++ ds) = ofDigits ds := by
  rw [ofDigits_append, ofDigits_zeros, mul_zero, zero_add]

theorem ofDigits_append_zeros (ds : List Char) (k : ℕ) : ofDigits (ds ++ zeros k) = 10 ^ k * ofDigits ds := by
  rw [ofDigits_append, ofDigits_zeros, add_zero, zeros, List.length_replicate]

theorem ofDigits_zero_cons (ds : List Char) : ofDigits ('0' :: ds) = ofDigits ds := ofDigits_zeros_append 1 ds

theorem ofDigits_cons (c : Char) (cs : List Char) :
    ofDigits (c :: cs) = 10 ^ cs.length * digitValue c + ofDigits cs := by
  have one : ofDigits [c] = digitValue c := by
    change 10 * 0 + digitValue c = digitValue c
    omega
  rw [← one]
  exact ofDigits_append [c] cs

theorem isDigit_digitsOf {n : ℕ} {c : Char} (member : c ∈ digitsOf n) : c.isDigit = true :=
  Nat.isDigit_of_mem_toDigits (by decide) (by decide) member

theorem isDigit_zeros {k : ℕ} {c : Char} (member : c ∈ zeros k) : c.isDigit = true := by
  rw [List.eq_of_mem_replicate member]
  rfl

/-- A row of digits that begins with a digit other than zero. -/
structure Row (ds : List Char) : Prop where
  digits : ∀ c ∈ ds, c.isDigit = true
  leading : ∃ c cs, ds = c :: cs ∧ c ≠ '0'

theorem digitChar_ne_zero {n : ℕ} (pos : 0 < n) (small : n < 10) : n.digitChar ≠ '0' := by
  interval_cases n <;> decide

theorem row_digitsOf {n : ℕ} (pos : 0 < n) : Row (digitsOf n) := by
  refine ⟨fun _ => isDigit_digitsOf, ?_⟩
  induction n using Nat.strong_induction_on with
  | _ n ih =>
    unfold digitsOf
    rcases Nat.lt_or_ge n 10 with small | large
    · rw [Nat.toDigits_of_lt_base small]
      exact ⟨_, [], rfl, digitChar_ne_zero pos small⟩
    · obtain ⟨c, cs, front, some⟩ := ih (n / 10) (by omega) (by omega)
      rw [Nat.toDigits_of_base_le (by decide) large]
      change Nat.toDigits 10 (n / 10) = _ at front
      rw [front]
      exact ⟨c, _, rfl, some⟩

theorem Row.ne_nil {ds : List Char} (row : Row ds) : ds ≠ [] := by
  obtain ⟨c, cs, rfl, _⟩ := row.leading
  exact List.cons_ne_nil c cs

theorem ofDigits_pos {ds : List Char} (row : Row ds) : 10 ^ (ds.length - 1) ≤ ofDigits ds := by
  obtain ⟨c, cs, rfl, some⟩ := row.leading
  have digit := Char.isDigit_iff_toNat.mp (row.digits c List.mem_cons_self)
  have positive : 1 ≤ digitValue c := by
    unfold digitValue
    have : c.toNat ≠ '0'.toNat := fun same => some (Char.toNat_inj.mp same)
    omega
  rw [ofDigits_cons]
  have := Nat.mul_le_mul_left (10 ^ cs.length) positive
  rw [mul_one] at this
  simpa using Nat.le_add_right_of_le this

theorem ofDigits_lt {ds : List Char} (digits : ∀ c ∈ ds, c.isDigit = true) : ofDigits ds < 10 ^ ds.length := by
  induction ds with
  | nil => decide
  | cons c cs ih =>
    have digit := Char.isDigit_iff_toNat.mp (digits c List.mem_cons_self)
    have small : digitValue c ≤ 9 := by
      have nine : '9'.toNat - '0'.toNat = 9 := rfl
      unfold digitValue
      omega
    have later := ih fun d member => digits d (List.mem_cons_of_mem c member)
    rw [ofDigits_cons, List.length_cons, pow_succ]
    have := Nat.mul_le_mul_left (10 ^ cs.length) small
    omega

theorem dropTrailingZeros_append (ds : List Char) : ∃ k, ds = dropTrailingZeros ds ++ zeros k := by
  refine ⟨(ds.reverse.takeWhile (· == '0')).length, ?_⟩
  have ends : ds.reverse.takeWhile (· == '0') = zeros (ds.reverse.takeWhile (· == '0')).length := by
    refine List.eq_replicate_of_mem fun c member => ?_
    simpa using List.mem_takeWhile_imp member
  have parts := congrArg List.reverse (@List.takeWhile_append_dropWhile _ (· == '0') ds.reverse)
  rw [List.reverse_append, List.reverse_reverse, ends, zeros, List.reverse_replicate] at parts
  exact parts.symm

theorem row_of_append_zeros {ds : List Char} {k : ℕ} (row : Row (ds ++ zeros k)) : Row ds := by
  refine ⟨fun c member => row.digits c (List.mem_append_left _ member), ?_⟩
  obtain ⟨c, cs, front, some⟩ := row.leading
  cases ds with
  | nil =>
    have zero : c ∈ zeros k := by
      rw [← List.nil_append (zeros k), front]
      exact List.mem_cons_self
    exact absurd (List.eq_of_mem_replicate zero) some
  | cons d ds =>
    rw [List.cons_append, List.cons.injEq] at front
    exact ⟨d, ds, rfl, front.1 ▸ some⟩

/-! ### Digits with the weight of the first -/

namespace Digits

/-- The weight of the last digit. -/
def last (d : Digits) : ℤ := d.exponent + 1 - d.digits.length

def value (d : Digits) : ℚ := ofDigits d.digits * 10 ^ d.last

variable {n : ℕ}

/-- The digits of a positive number start with the first one that counts, and zeros at the end are not kept:
they raise the weight of the last digit. -/
theorem ofScaled_eq (pos : 0 < n) (e : ℤ) : ∃ k : ℕ, Row (Digits.ofScaled n e).digits ∧
    n = 10 ^ k * ofDigits (Digits.ofScaled n e).digits ∧ (Digits.ofScaled n e).last = e + k := by
  obtain ⟨k, split⟩ := dropTrailingZeros_append (digitsOf n)
  refine ⟨k, ?_, ?_, ?_⟩
  · have row := row_digitsOf pos
    rw [split] at row
    exact row_of_append_zeros row
  · have whole := ofDigits_digitsOf n
    rw [split, ofDigits_append_zeros] at whole
    exact whole.symm
  · have length := congrArg List.length split
    rw [List.length_append, zeros, List.length_replicate] at length
    simp only [last, ofScaled]
    omega

theorem value_ofScaled (pos : 0 < n) (e : ℤ) : (Digits.ofScaled n e).value = n * 10 ^ e := by
  obtain ⟨k, _, split, weight⟩ := ofScaled_eq pos e
  rw [value, weight, ten_zpow_add, zpow_natCast]
  conv_rhs => rw [split]
  push_cast
  ring

end Digits

/-! ### Numerals -/

namespace Numeral

def value (n : Numeral) : ℚ := n.significand * 10 ^ n.scale

theorem ratio_den_pos (n : Numeral) : 0 < n.ratio.den := by
  change 0 < 10 ^ _
  positivity

theorem value_ratio (n : Numeral) : n.ratio.value = n.value := by
  change ((n.significand * 10 ^ n.scale.toNat : ℕ) : ℚ) / ((10 ^ (-n.scale).toNat : ℕ) : ℚ) = _
  rw [value, zpow_eq_div (by norm_num) n.scale]
  push_cast
  ring

/-- A numeral as both formats write it. -/
structure Proper (n : Numeral) : Prop where
  whole : n.whole = ['0'] ∨ Row n.whole
  fraction : ∀ ds, n.fraction = some ds → ds ≠ [] ∧ ∀ c ∈ ds, c.isDigit = true

theorem Proper.whole_digits {n : Numeral} (proper : n.Proper) : ∀ c ∈ n.whole, c.isDigit = true := by
  rcases proper.whole with zero | row
  · rw [zero]
    exact fun c member => isDigit_zeros (k := 1) member
  · exact row.digits

theorem Proper.ne_nil {n : Numeral} (proper : n.Proper) : n.whole ≠ [] := by
  rcases proper.whole with zero | row
  · rw [zero]
    exact List.cons_ne_nil _ _
  · exact row.ne_nil

theorem proper_ofNat (n : ℕ) : (ofNat n).Proper := by
  refine ⟨?_, by rintro ds ⟨⟩⟩
  rcases Nat.eq_zero_or_pos n with rfl | pos
  · exact Or.inl (Nat.toDigits_zero 10)
  · exact Or.inr (row_digitsOf pos)

end Numeral

/-! ### Layouts -/

/-- The significand of a numeral laid out from digits is that of the digits, or that and zeros, if a whole
number has to be filled up to the point. -/
structure Laid (s : Style) (negative : Bool) (d : Digits) (n : Numeral) : Prop where
  proper : n.Proper
  sign : n.negative = negative
  notInteger : n.isInteger = false
  exact : (n.significand = ofDigits d.digits ∧ n.scale = d.last) ∨
    ∃ k : ℕ, n.significand = 10 ^ (k + 1) * ofDigits d.digits ∧ n.scale = -1 ∧ d.last = k ∧
      s.greatest.all (d.exponent ≤ ·) = true

theorem Laid.value {s : Style} {negative : Bool} {d : Digits} {n : Numeral} (laid : Laid s negative d n) :
    n.value = d.value := by
  rcases laid.exact with ⟨significand, scale⟩ | ⟨k, significand, scale, last, _⟩
  · rw [Numeral.value, significand, scale, Digits.value]
  · rw [Numeral.value, significand, scale, Digits.value, last, zpow_natCast, pow_succ]
    push_cast
    ring

theorem mem_take_digits {ds : List Char} (row : Row ds) (k : ℕ) : ∀ c ∈ ds.take k, c.isDigit = true :=
  fun c member => row.digits c (List.mem_of_mem_take member)

theorem mem_drop_digits {ds : List Char} (row : Row ds) (k : ℕ) : ∀ c ∈ ds.drop k, c.isDigit = true :=
  fun c member => row.digits c (List.mem_of_mem_drop member)

theorem row_take {ds : List Char} (row : Row ds) (k : ℕ) : Row (ds.take (k + 1)) := by
  refine ⟨mem_take_digits row _, ?_⟩
  obtain ⟨c, cs, rfl, some⟩ := row.leading
  exact ⟨c, cs.take k, rfl, some⟩

variable {s : Style} {d : Digits} (negative : Bool)

theorem laid_positional (pointZero : s.pointZero = true) (row : Row d.digits)
    (within : s.greatest.all (d.exponent ≤ ·) = true) : Laid s negative d (s.positional negative d) := by
  unfold Style.positional
  have noFraction : s.noFraction = some ['0'] := by rw [Style.noFraction, pointZero]; rfl
  split
  · next below =>
    refine ⟨⟨Or.inl rfl, ?_⟩, rfl, rfl, Or.inl ⟨?_, ?_⟩⟩
    · rintro ds ⟨⟩
      refine ⟨List.append_ne_nil_of_right_ne_nil _ row.ne_nil, ?_⟩
      intro c member
      rcases List.mem_append.mp member with zero | digit
      · exact isDigit_zeros zero
      · exact row.digits c digit
    · change ofDigits ('0' :: (zeros (d.exponent.natAbs - 1) ++ d.digits)) = _
      rw [ofDigits_zero_cons, ofDigits_zeros_append]
    · simp only [Numeral.scale, Option.getD_none, Option.getD_some, List.length_append, zeros,
        List.length_replicate, Digits.last]
      omega
  · next above =>
    dsimp only
    split
    · next short =>
      refine ⟨⟨Or.inr ?_, ?_⟩, rfl, ?_, Or.inr ⟨d.exponent.toNat + 1 - d.digits.length, ?_, ?_, ?_, within⟩⟩
      · refine ⟨?_, ?_⟩
        · intro c member
          rcases List.mem_append.mp member with digit | zero
          · exact row.digits c digit
          · exact isDigit_zeros zero
        · obtain ⟨c, cs, front, some⟩ := row.leading
          exact ⟨c, cs ++ zeros _, by rw [front]; rfl, some⟩
      · intro ds some
        rw [noFraction, Option.some.injEq] at some
        subst some
        exact ⟨List.cons_ne_nil _ _, fun c member => isDigit_zeros (k := 1) member⟩
      · rw [noFraction]
        rfl
      · simp only [Numeral.significand, Numeral.digits, noFraction, Option.getD_some]
        rw [ofDigits_append, ofDigits_append_zeros, pow_succ]
        change 10 ^ 1 * _ + 0 = _
        ring
      · simp [Numeral.scale, noFraction]
      · simp only [Digits.last]
        omega
    · next long =>
      refine ⟨⟨Or.inr (row_take row _), ?_⟩, rfl, rfl, Or.inl ⟨?_, ?_⟩⟩
      · rintro ds ⟨⟩
        refine ⟨?_, mem_drop_digits row _⟩
        intro none
        have := List.drop_eq_nil_iff.mp none
        omega
      · change ofDigits (d.digits.take _ ++ d.digits.drop _) = _
        rw [List.take_append_drop]
      · simp only [Numeral.scale, Option.getD_none, Option.getD_some, List.length_drop, Digits.last]
        omega

theorem laid_scientific (s : Style) (row : Row d.digits) : Laid s negative d (scientific negative d) := by
  obtain ⟨c, cs, front, some⟩ := row.leading
  have rest : ∀ x ∈ cs, x.isDigit = true := fun x member => row.digits x (front ▸ List.mem_cons_of_mem c member)
  have take : d.digits.take 1 = [c] := by rw [front]; rfl
  have drop : d.digits.drop 1 = cs := by rw [front]; rfl
  unfold scientific
  rw [take, drop]
  cases cs with
  | nil =>
    refine ⟨⟨Or.inr ⟨by rw [← take]; exact mem_take_digits row 1, c, [], rfl, some⟩, by rintro ds ⟨⟩⟩, rfl, rfl,
      Or.inl ⟨?_, ?_⟩⟩
    · rw [front]
      rfl
    · simp [Numeral.scale, Digits.last, front, someDigits]
  | cons x xs =>
    refine ⟨⟨Or.inr ⟨by rw [← take]; exact mem_take_digits row 1, c, [], rfl, some⟩, ?_⟩, rfl, rfl,
      Or.inl ⟨?_, ?_⟩⟩
    · rintro ds ⟨⟩
      exact ⟨List.cons_ne_nil _ _, rest⟩
    · rw [front]
      rfl
    · simp [Numeral.scale, Digits.last, front, someDigits]

theorem laid_layout (pointZero : s.pointZero = true) (row : Row d.digits) :
    Laid s negative d (s.layout negative d) := by
  unfold Style.layout
  split
  · next within => exact laid_positional negative pointZero row (Bool.and_eq_true_iff.mp within).2
  · exact laid_scientific negative s row

end Toolpath.Decimal

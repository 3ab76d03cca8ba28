import Toolpath.Proofs.Decimal.Shortest

/-!
# Numerals and their text

A numeral of a style is written in parts, each of which ends where the next one begins. Its value is within
reach of a format whenever it is not enormous, and then it is rounded like any quotient.
-/

namespace Toolpath.Decimal

open Binary

/-! ### The parts of a text -/

theorem span_eq {p : Char → Bool} {cs rest : List Char} (all : ∀ c ∈ cs, p c = true)
    (stop : ∀ c ∈ rest.head?, p c = false) : (cs ++ rest).span p = (cs, rest) := by
  rw [List.span_eq_takeWhile_dropWhile, List.takeWhile_append_of_pos all, List.dropWhile_append_of_pos all]
  cases rest with
  | nil => simp
  | cons c rest =>
    have no := stop c rfl
    rw [List.takeWhile_cons_of_neg (by rw [no]; exact Bool.false_ne_true), List.append_nil,
      List.dropWhile_cons_of_neg (by rw [no]; exact Bool.false_ne_true)]

/-- The text is at its end or goes on with one of the marks. -/
def Follows (marks rest : List Char) : Prop := ∀ c ∈ rest.head?, c ∈ marks

/-- The marks that may follow a numeral: the end of a line, a comma, and closing brackets. -/
def stops : List Char := ['\n', ',', ']', '\x7d']

variable {marks rest : List Char}

theorem follows_nil (marks : List Char) : Follows marks [] := by
  rintro c ⟨⟩

theorem follows_cons {c : Char} (member : c ∈ marks) (rest : List Char) : Follows marks (c :: rest) := by
  rintro d ⟨⟩
  exact member

theorem Follows.mono {more : List Char} (follows : Follows marks rest) (subset : marks ⊆ more) :
    Follows more rest := fun c member => subset (follows c member)

theorem Follows.not_digit (follows : Follows ('.' :: 'e' :: stops) rest) : ∀ c ∈ rest.head?, c.isDigit = false := by
  intro c member
  have mark := follows c member
  simp only [stops, List.mem_cons, List.not_mem_nil, or_false] at mark
  rcases mark with rfl | rfl | rfl | rfl | rfl | rfl <;> rfl

theorem Follows.not_exponent (follows : Follows stops rest) :
    ∀ c ∈ rest.head?, ¬ (decide (c = 'e') || decide (c = 'E')) = true := by
  intro c member
  have mark := follows c member
  simp only [stops, List.mem_cons, List.not_mem_nil, or_false] at mark
  rcases mark with rfl | rfl | rfl | rfl <;> simp

theorem splitSign_exponent (e : Int) (cs : List Char) :
    splitSign ((if e < 0 then '-' else '+') :: cs) = (decide (e < 0), cs) := by
  by_cases negative : e < 0
  · rw [if_pos negative, decide_eq_true negative]
    rfl
  · rw [if_neg negative, decide_eq_false negative]
    rfl

theorem signed_natAbs (e : Int) : (if e < 0 then -(e.natAbs : Int) else e.natAbs) = e := by
  split <;> omega

namespace Numeral

def fractionText (n : Numeral) : List Char :=
  match n.fraction with
  | some ds => '.' :: ds
  | none => []

def exponentText (n : Numeral) : List Char :=
  match n.exponent with
  | some e => 'e' :: (if e < 0 then '-' else '+') :: digitsOf e.natAbs
  | none => []

theorem render_eq (n : Numeral) :
    n.render = (if n.negative then ['-'] else []) ++ n.whole ++ n.fractionText ++ n.exponentText := rfl

theorem follows_exponentText (n : Numeral) (stop : Follows stops rest) :
    Follows ('e' :: stops) (n.exponentText ++ rest) := by
  unfold exponentText
  split
  · exact follows_cons List.mem_cons_self _
  · exact stop.mono (List.subset_cons_self _ _)

theorem follows_fractionText (n : Numeral) (stop : Follows stops rest) :
    Follows ('.' :: 'e' :: stops) (n.fractionText ++ (n.exponentText ++ rest)) := by
  unfold fractionText
  split
  · exact follows_cons List.mem_cons_self _
  · exact (n.follows_exponentText stop).mono (List.subset_cons_self _ _)

theorem Proper.exists_digit {n : Numeral} (proper : n.Proper) : ∃ c cs, n.whole = c :: cs ∧ c.isDigit = true := by
  cases whole : n.whole with
  | nil => exact absurd whole proper.ne_nil
  | cons c cs => exact ⟨c, cs, rfl, proper.whole_digits c (whole ▸ List.mem_cons_self)⟩

/-- A numeral begins with its sign or with a digit. -/
theorem Proper.exists_head {n : Numeral} (proper : n.Proper) :
    ∃ c cs, n.render = c :: cs ∧ (c = '-' ∨ c.isDigit = true) := by
  obtain ⟨c, cs, whole, digit⟩ := proper.exists_digit
  cases negative : n.negative with
  | false => exact ⟨c, _, by rw [render_eq, negative, whole]; rfl, Or.inr digit⟩
  | true => exact ⟨'-', _, by rw [render_eq, negative]; rfl, Or.inl rfl⟩

/-- The head of a numeral is no letter and no mark. -/
theorem ne_of_head {c d : Char} (head : c = '-' ∨ c.isDigit = true) (notMinus : d ≠ '-') (notDigit : d.isDigit = false) :
    c ≠ d := by
  rintro rfl
  rcases head with minus | digit
  · exact notMinus minus
  · rw [notDigit] at digit
    cases digit

end Numeral

/-! ### What is written of a magnitude -/

theorem proper_zero (s : Style) (negative : Bool) : (Numeral.mk negative ['0'] s.noFraction none).Proper := by
  refine ⟨Or.inl rfl, fun ds given => ?_⟩
  have split : s.noFraction = if s.pointZero then some ['0'] else none := rfl
  dsimp only at given
  rw [split] at given
  split at given
  · obtain rfl := Option.some.inj given
    exact ⟨List.cons_ne_nil _ _, fun c member => isDigit_zeros (k := 1) member⟩
  · cases given

/-- A magnitude other than zero is written as a numeral that reads back to it. -/
theorem laid_magnitude (s : Style) (f : Format) (negative : Bool) {m : Magnitude} (pos : 0 < m.significand)
    (pointZero : s.pointZero = true) :
    ∃ d, Laid s negative d (s.magnitude f negative m) ∧ f.Reads m d.value := by
  obtain ⟨n, e, npos, reads, digits⟩ := shortest_reads f s.tie pos
  obtain ⟨_, row, _, _⟩ := Digits.ofScaled_eq npos e
  refine ⟨.ofScaled n e, ?_, ?_⟩
  · unfold Style.magnitude
    rw [if_neg pos.ne', digits]
    exact laid_layout negative pointZero row
  · rw [Digits.value_ofScaled npos]
    exact reads

theorem proper_magnitude {s : Style} (pointZero : s.pointZero = true) (f : Format) (negative : Bool) (m : Magnitude) :
    (s.magnitude f negative m).Proper ∧ (s.magnitude f negative m).isInteger = false := by
  rcases Nat.eq_zero_or_pos m.significand with zero | pos
  · unfold Style.magnitude
    rw [if_pos zero]
    refine ⟨proper_zero s negative, ?_⟩
    rw [Style.noFraction, pointZero]
    rfl
  · obtain ⟨d, laid, _⟩ := laid_magnitude s f negative pos pointZero
    exact ⟨laid.proper, laid.notInteger⟩

/-! ### Numerals within reach -/

theorem ofDigits_leading (ds : List Char) : ofDigits (ds.dropWhile (· == '0')) = ofDigits ds := by
  induction ds with
  | nil => rfl
  | cons c cs ih =>
    by_cases zero : c = '0'
    · subst zero
      rw [List.dropWhile_cons_of_pos rfl, ih, ofDigits_zero_cons]
    · rw [List.dropWhile_cons_of_neg (by simpa using zero)]

theorem row_leading {ds : List Char} (digits : ∀ c ∈ ds, c.isDigit = true)
    (some : ds.dropWhile (· == '0') ≠ []) : Row (ds.dropWhile (· == '0')) := by
  refine ⟨fun c member => digits c ((List.dropWhile_sublist _).mem member), ?_⟩
  cases front : ds.dropWhile (· == '0') with
  | nil => exact absurd front some
  | cons c cs =>
    have head := List.head_dropWhile_not (· == '0') some
    refine ⟨c, cs, rfl, ?_⟩
    simpa [front] using head

namespace Numeral

variable {n : Numeral} {f : Format}

theorem Proper.digits (proper : n.Proper) : ∀ c ∈ n.digits, c.isDigit = true := by
  intro c member
  rcases List.mem_append.mp member with whole | fraction
  · exact proper.whole_digits c whole
  · cases some : n.fraction with
    | none =>
      rw [some] at fraction
      cases fraction
    | some ds =>
      rw [some] at fraction
      exact (proper.fraction ds some).2 c fraction

/-- The place of the digit in front of the leading one. -/
def place (n : Numeral) : ℤ := n.scale + n.leadingDigits.length

theorem significand_of_no_leading (none : n.leadingDigits = []) : n.significand = 0 := by
  have leading : ofDigits n.leadingDigits = n.significand := ofDigits_leading n.digits
  rw [← leading, none]
  rfl

theorem value_bounds (digits : ∀ c ∈ n.digits, c.isDigit = true) (nonempty : n.leadingDigits ≠ []) :
    (10 : ℚ) ^ (n.place - 1) ≤ n.value ∧ n.value < (10 : ℚ) ^ n.place := by
  have leading : ofDigits n.leadingDigits = n.significand := ofDigits_leading n.digits
  have row : Row n.leadingDigits := row_leading digits nonempty
  have length : 0 < n.leadingDigits.length := List.length_pos_iff.mpr nonempty
  have least : (10 : ℚ) ^ (n.leadingDigits.length - 1) ≤ n.significand := by
    rw [← leading]
    exact_mod_cast ofDigits_pos row
  have most : (n.significand : ℚ) < 10 ^ n.leadingDigits.length := by
    rw [← leading]
    exact_mod_cast ofDigits_lt row.digits
  have unit := ten_zpow_pos n.scale
  constructor
  · have split : n.place - 1 = (n.leadingDigits.length - 1 : ℕ) + n.scale := by
      unfold place
      omega
    rw [split, ten_zpow_add, zpow_natCast]
    exact mul_le_mul_of_nonneg_right least unit.le
  · rw [place, add_comm, ten_zpow_add, zpow_natCast]
    exact mul_lt_mul_of_pos_right most unit

/-- The tests by `reach` do not matter for numerals that are not enormous. -/
theorem nearest_eq (proper : n.Proper) (low : (10 : ℚ) ^ (-400 : ℤ) ≤ n.value) (high : n.value < (10 : ℚ) ^ (400 : ℤ)) :
    n.nearest f = f.nearest n.ratio := by
  have nonempty : n.leadingDigits ≠ [] := by
    intro none
    have zero : n.value = 0 := by rw [value, significand_of_no_leading none, Nat.cast_zero, zero_mul]
    have := ten_zpow_pos (-400)
    linarith
  obtain ⟨least, most⟩ := value_bounds proper.digits nonempty
  have above : -400 < n.place := (zpow_lt_zpow_iff_right₀ (by norm_num)).mp (low.trans_lt most)
  have below : n.place - 1 < 400 := (zpow_lt_zpow_iff_right₀ (by norm_num)).mp (least.trans_lt high)
  have isEmpty : n.leadingDigits.isEmpty = false := by
    rw [List.isEmpty_eq_false_iff]
    exact nonempty
  unfold place at above below
  unfold nearest reach
  dsimp only
  rw [isEmpty, Bool.false_or, if_neg (by rw [decide_eq_true_eq]; omega), if_neg (by omega)]

end Numeral

end Toolpath.Decimal

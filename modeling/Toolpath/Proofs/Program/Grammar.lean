import Mathlib
import Toolpath.Proofs.Decimal.Reach
import Toolpath.Proofs.Program.Letters

/-!
# The grammar of words

What a word may look like, said without reading one: a letter of the alphabet, then a number, which is a sign that may
be absent, digits with at most one point among them, and an exponent that may be absent. `Word.ofText?` accepts the
texts of this grammar, as far as their values are in the range of single precision, and nothing else.
-/

namespace Toolpath.Program

open Decimal (Numeral exponent? ofDigits someDigits splitSign)

/-! ### Texts of numbers -/

/-- Digits and nothing else. -/
def Figures (ds : List Char) : Prop := ∀ c ∈ ds, c.isDigit = true

/-- A sign that may be absent, and whether it is negative. -/
inductive SignText : List Char → Bool → Prop where
  | absent : SignText [] false
  | plus : SignText ['+'] false
  | minus : SignText ['-'] true

/-- Digits with at most one point, at least one digit in all, and their value. -/
inductive MantissaText : List Char → ℚ → Prop where
  | whole {ds : List Char} (digits : Figures ds) (some : ds ≠ []) : MantissaText ds (ofDigits ds)
  | point {whole fraction : List Char} (digits : Figures whole) (digits' : Figures fraction)
      (some : whole ≠ [] ∨ fraction ≠ []) :
      MantissaText (whole ++ '.' :: fraction) (ofDigits whole + ofDigits fraction / 10 ^ fraction.length)

/-- A mark with a sign that may be absent and at least one digit, or nothing at all, and the power of ten. -/
inductive ExponentText : List Char → ℤ → Prop where
  | absent : ExponentText [] 0
  | marked {mark : Char} {sign ds : List Char} {negative : Bool} (marks : mark = 'e' ∨ mark = 'E')
      (signed : SignText sign negative) (digits : Figures ds) (some : ds ≠ []) :
      ExponentText (mark :: (sign ++ ds)) (if negative then -(ofDigits ds : ℤ) else ofDigits ds)

/-- A number as it is written, whether it has a minus, and its exact size. -/
inductive NumberText : List Char → Bool → ℚ → Prop where
  | intro {sign mantissa exponent : List Char} {negative : Bool} {size : ℚ} {e : ℤ} (signed : SignText sign negative)
      (sized : MantissaText mantissa size) (scaled : ExponentText exponent e) :
      NumberText (sign ++ (mantissa ++ exponent)) negative (size * 10 ^ e)

variable {cs ds rest sign mantissa : List Char} {negative : Bool} {size : ℚ} {e : ℤ} {n : Numeral} {c : Char}

/-! ### Signs and exponents -/

theorem exists_signText (cs : List Char) : ∃ sign, SignText sign (splitSign cs).1 ∧ cs = sign ++ (splitSign cs).2 := by
  unfold splitSign
  split
  · exact ⟨['-'], .minus, rfl⟩
  · exact ⟨['+'], .plus, rfl⟩
  · exact ⟨[], .absent, rfl⟩

theorem splitSign_plain (plain : ∀ c ∈ rest.head?, c ≠ '-' ∧ c ≠ '+') : splitSign rest = (false, rest) := by
  unfold splitSign
  split
  · exact absurd rfl (plain '-' rfl).1
  · exact absurd rfl (plain '+' rfl).2
  · rfl

theorem SignText.splitSign_append (signed : SignText sign negative) (plain : ∀ c ∈ rest.head?, c ≠ '-' ∧ c ≠ '+') :
    splitSign (sign ++ rest) = (negative, rest) := by
  cases signed with
  | absent => exact splitSign_plain plain
  | plus => rfl
  | minus => rfl

theorem not_sign_of_digit (digit : c.isDigit = true) : c ≠ '-' ∧ c ≠ '+' := by
  constructor
  · rintro rfl
    cases digit
  · rintro rfl
    cases digit

theorem Figures.head (digits : Figures ds) : ∀ c ∈ ds.head?, c.isDigit = true :=
  fun c first => digits c (List.mem_of_mem_head? first)

theorem exponentText_of_exponent? (marks : c = 'e' ∨ c = 'E') (read : exponent? cs = some e) :
    ExponentText (c :: cs) e := by
  obtain ⟨sign, signed, same⟩ := exists_signText cs
  unfold exponent? at read
  generalize splitSign cs = parts at read signed same
  obtain ⟨negative, ds⟩ := parts
  subst same
  dsimp only at read signed ⊢
  split at read
  · cases read
  · next digits =>
    rw [Bool.or_eq_true, not_or, Bool.not_eq_true', Bool.not_eq_false, List.isEmpty_iff, List.all_eq_true] at digits
    obtain rfl := Option.some.inj read
    exact .marked marks signed digits.2 digits.1

theorem exponent?_of_text (signed : SignText sign negative) (digits : Figures ds) (some : ds ≠ []) :
    exponent? (sign ++ ds) = Option.some (if negative then -(ofDigits ds : ℤ) else ofDigits ds) := by
  have parts := signed.splitSign_append fun c first => not_sign_of_digit (digits.head c first)
  have all : ds.all Char.isDigit = true := List.all_eq_true.mpr digits
  unfold exponent?
  rw [parts]
  dsimp only
  rw [List.isEmpty_eq_false_iff.mpr some, all]
  rfl

/-- An exponent begins with its mark, which is neither a digit nor a point. -/
theorem ExponentText.head (scaled : ExponentText cs e) :
    ∀ c ∈ cs.head?, c.isDigit = false ∧ c ≠ '.' ∧ c ≠ '-' ∧ c ≠ '+' := by
  cases scaled with
  | absent => rintro c ⟨⟩
  | marked marks signed digits some =>
    rintro c ⟨⟩
    rcases marks with rfl | rfl <;> decide

/-! ### Digits and the point -/

theorem ofDigits_nil : (ofDigits [] : ℚ) = 0 := Nat.cast_zero

theorem someDigits_getD (ds : List Char) : (someDigits ds).getD [] = ds := by cases ds <;> rfl

theorem figures_of_span (cut : cs.span Char.isDigit = (ds, rest)) : Figures ds ∧ cs = ds ++ rest := by
  rw [List.span_eq_takeWhile_dropWhile, Prod.mk.injEq] at cut
  obtain ⟨rfl, rfl⟩ := cut
  exact ⟨fun _ member => List.mem_takeWhile_imp member, List.takeWhile_append_dropWhile.symm⟩

/-- The digits that a reader finds are the mantissa of the text in front of what it leaves. -/
theorem exists_mantissaText {whole fraction rest' : List Char} (first : cs.span Char.isDigit = (whole, rest'))
    (second : fractionDigits rest' = (fraction, rest)) (some : whole ≠ [] ∨ fraction ≠ []) :
    Figures (whole ++ fraction) ∧ ∃ mantissa,
      MantissaText mantissa (ofDigits whole + ofDigits fraction / 10 ^ fraction.length) ∧ cs = mantissa ++ rest := by
  obtain ⟨digits, rfl⟩ := figures_of_span first
  unfold fractionDigits at second
  split at second
  · next later =>
    obtain ⟨digits', rfl⟩ := figures_of_span second
    refine ⟨fun c member => (List.mem_append.mp member).elim (digits c) (digits' c), _, .point digits digits' some, ?_⟩
    simp
  · rw [Prod.mk.injEq] at second
    obtain ⟨rfl, rfl⟩ := second
    have nonempty : whole ≠ [] := some.resolve_right fun absurd => absurd rfl
    refine ⟨by rwa [List.append_nil], whole, ?_, rfl⟩
    rw [ofDigits_nil, zero_div, add_zero]
    exact .whole digits nonempty

/-- A reader finds the digits of a mantissa, if what follows does not go on with it. -/
theorem MantissaText.parts (sized : MantissaText mantissa size)
    (stop : ∀ c ∈ rest.head?, c.isDigit = false ∧ c ≠ '.') :
    ∃ whole fraction rest', (mantissa ++ rest).span Char.isDigit = (whole, rest') ∧
      fractionDigits rest' = (fraction, rest) ∧ (whole.isEmpty && fraction.isEmpty) = false ∧
      size = ofDigits whole + ofDigits fraction / 10 ^ fraction.length := by
  cases sized with
  | whole digits some =>
    have ended : fractionDigits rest = ([], rest) := by
      unfold fractionDigits
      split
      · exact absurd rfl (stop '.' rfl).2
      · rfl
    refine ⟨mantissa, [], rest, Decimal.span_eq digits fun c first => (stop c first).1, ended, ?_, ?_⟩
    · rw [List.isEmpty_eq_false_iff.mpr some, Bool.false_and]
    · rw [ofDigits_nil, zero_div, add_zero]
  | @point whole fraction digits digits' some =>
    refine ⟨whole, fraction, '.' :: (fraction ++ rest), ?_, ?_, ?_, rfl⟩
    · rw [List.append_assoc, List.cons_append]
      refine Decimal.span_eq digits ?_
      rintro c ⟨⟩
      rfl
    · exact Decimal.span_eq digits' fun c first => (stop c first).1
    · rw [Bool.and_eq_false_iff, List.isEmpty_eq_false_iff, List.isEmpty_eq_false_iff]
      exact some

/-- A mantissa begins with a digit or with the point. -/
theorem MantissaText.head (sized : MantissaText mantissa size) (rest : List Char) :
    ∀ c ∈ (mantissa ++ rest).head?, c ≠ '-' ∧ c ≠ '+' := by
  cases sized with
  | whole digits some =>
    obtain ⟨d, ds, rfl⟩ := List.exists_cons_of_ne_nil some
    rintro c ⟨⟩
    exact not_sign_of_digit (digits d List.mem_cons_self)
  | @point whole fraction digits =>
    cases whole with
    | nil =>
      rintro c ⟨⟩
      decide
    | cons d ds =>
      rintro c ⟨⟩
      exact not_sign_of_digit (digits d List.mem_cons_self)

/-! ### Numerals -/

theorem value_parts (negative : Bool) (whole fraction : List Char) (exponent : Option ℤ) :
    (Numeral.mk negative whole (someDigits fraction) exponent).value =
      (ofDigits whole + ofDigits fraction / 10 ^ fraction.length) * 10 ^ exponent.getD 0 := by
  have pos : (0 : ℚ) < 10 ^ fraction.length := by positivity
  rw [Numeral.value, Numeral.significand, Numeral.digits, Numeral.scale]
  dsimp only
  rw [someDigits_getD, Decimal.ofDigits_append, zpow_sub₀ (by norm_num), zpow_natCast]
  push_cast
  field_simp

/-- What is read is a number of the grammar, with its sign and its value. -/
theorem numberText_of_free? (read : Numeral.free? cs = some n) :
    NumberText cs n.negative n.value ∧ Figures n.digits := by
  rw [free?_eq] at read
  obtain ⟨sign, signed, same⟩ := exists_signText cs
  generalize splitSign cs = parts at read signed same
  obtain ⟨negative, body⟩ := parts
  subst same
  dsimp only at read signed ⊢
  cases first : body.span Char.isDigit with
  | mk whole rest =>
    cases second : fractionDigits rest with
    | mk fraction exponent =>
      rw [first] at read
      dsimp only at read
      rw [second] at read
      dsimp only at read
      split at read
      · cases read
      · next nonempty =>
        rw [Bool.and_eq_true, List.isEmpty_iff, List.isEmpty_iff, not_and_or] at nonempty
        obtain ⟨digits, mantissa, sized, rfl⟩ := exists_mantissaText first second nonempty
        have figures : ∀ e, Figures (Numeral.mk negative whole (someDigits fraction) e).digits := by
          intro e
          rw [Numeral.digits, someDigits_getD]
          exact digits
        split at read
        · obtain rfl := Option.some.inj read
          rw [value_parts]
          exact ⟨.intro signed sized .absent, figures _⟩
        · next mark rest =>
          split at read
          · next marks =>
            rw [Bool.or_eq_true, decide_eq_true_eq, decide_eq_true_eq] at marks
            obtain ⟨e, scaled, rfl⟩ := Option.map_eq_some_iff.mp read
            rw [value_parts]
            exact ⟨.intro signed sized (exponentText_of_exponent? marks scaled), figures _⟩
          · cases read

/-- Every number of the grammar is read, with its sign and its value. -/
theorem free?_of_numberText (text : NumberText cs negative size) :
    ∃ n, Numeral.free? cs = some n ∧ n.negative = negative ∧ n.value = size := by
  obtain ⟨signed, sized, scaled⟩ := text
  next sign mantissa exponent size e =>
  have sign_parts := signed.splitSign_append (sized.head exponent)
  obtain ⟨whole, fraction, rest, first, second, nonempty, rfl⟩ :=
    sized.parts fun c front => ⟨(scaled.head c front).1, (scaled.head c front).2.1⟩
  rw [free?_eq, sign_parts]
  dsimp only
  rw [first]
  dsimp only
  rw [second]
  dsimp only
  rw [if_neg (by rw [nonempty]; exact Bool.false_ne_true)]
  cases scaled with
  | absent => exact ⟨_, rfl, rfl, value_parts ..⟩
  | marked marks signed' digits some =>
    dsimp only
    rw [if_pos (by simpa using marks), exponent?_of_text signed' digits some]
    exact ⟨_, rfl, rfl, value_parts ..⟩

/-! ### Characters of numbers -/

/-- The marks of a number, which are not digits. -/
def numberMarks : List Char := ['+', '-', '.', 'e', 'E']

def Plain (cs : List Char) : Prop := ∀ c ∈ cs, c.isDigit = true ∨ c ∈ numberMarks

theorem Plain.append (left : Plain cs) (right : Plain ds) : Plain (cs ++ ds) :=
  fun c member => (List.mem_append.mp member).elim (left c) (right c)

theorem Plain.cons (mark : c ∈ numberMarks) (later : Plain cs) : Plain (c :: cs) := by
  rintro d (_ | ⟨_, member⟩)
  · exact Or.inr mark
  · exact later d member

theorem Figures.plain (digits : Figures ds) : Plain ds := fun c member => Or.inl (digits c member)

theorem SignText.plain (signed : SignText sign negative) : Plain sign := by
  cases signed with
  | absent => rintro c ⟨⟩
  | plus => exact .cons (by decide) (by rintro c ⟨⟩)
  | minus => exact .cons (by decide) (by rintro c ⟨⟩)

theorem MantissaText.plain (sized : MantissaText mantissa size) : Plain mantissa ∧ mantissa ≠ [] := by
  cases sized with
  | whole digits some => exact ⟨digits.plain, some⟩
  | point digits digits' some => exact ⟨digits.plain.append (.cons (by decide) digits'.plain), by simp⟩

theorem ExponentText.plain (scaled : ExponentText cs e) : Plain cs := by
  cases scaled with
  | absent => rintro c ⟨⟩
  | marked marks signed digits some =>
    refine .cons ?_ (signed.plain.append digits.plain)
    rcases marks with rfl | rfl <;> decide

theorem NumberText.plain (text : NumberText cs negative size) : Plain cs ∧ cs ≠ [] := by
  obtain ⟨signed, sized, scaled⟩ := text
  refine ⟨signed.plain.append (sized.plain.1.append scaled.plain), ?_⟩
  simp [sized.plain.2]

/-! ### Words -/

/-- The value of a number with its sign. -/
theorem signed_eq (negative : Bool) (size : ℚ) :
    Single.signed (Double.sign negative) size = if negative then -size else size := by
  cases negative <;> rfl

theorem inRange_size (nonneg : 0 ≤ size) : Single.InRange size ↔ size < 2 ^ 128 - 2 ^ 103 := by
  rw [Single.InRange, abs_of_nonneg nonneg]

theorem NumberText.size_nonneg (text : NumberText cs negative size) : 0 ≤ size := by
  obtain ⟨n, -, -, rfl⟩ := free?_of_numberText text
  exact n.value_nonneg

/-- A number of the grammar is read as its value rounded, if that is in range. -/
theorem exists_toSingle (text : NumberText cs negative size) :
    ∃ n, Numeral.free? cs = some n ∧ (n.toSingle.isFinite = true ↔ size < 2 ^ 128 - 2 ^ 103) ∧
      Single.isNegative n.toSingle = negative ∧
      (n.toSingle.isFinite = true → Single.value n.toSingle = Single.rounded (if negative then -size else size)) := by
  obtain ⟨n, read, rfl, rfl⟩ := free?_of_numberText text
  obtain ⟨rounds, sign⟩ := Numeral.rounds_toSingle (numberText_of_free? read).2
  refine ⟨n, read, ?_, sign, ?_⟩
  · rw [rounds.finite_iff, Single.InRange, Single.abs_signed]
    exact inRange_size n.value_nonneg
  · rw [← signed_eq]
    exact rounds.value

theorem ofText?_cons (letter : c.isAlpha = true) (read : Numeral.free? cs = some n) :
    Word.ofText? (c :: cs) = if n.toSingle.isFinite then some (.ofLetter c.toUpper n.toSingle) else none := by
  rw [Word.ofText?, if_pos letter, read]

-- The middle behind the greatest number is the least size out of range.
example : (Word.ofText? "x+34028235677973366163753939545814256844.70e1".toList).isSome = true ∧
    (Word.ofText? "x-340282356779733661637539395458142568448".toList).isSome = false := by decide +kernel

theorem shape_of_ofText? {w : Word} (spells : Word.ofText? (c :: cs) = some w) :
    c.isAlpha = true ∧ ∃ n, Numeral.free? cs = some n ∧ n.toSingle.isFinite = true ∧
      w = .ofLetter c.toUpper n.toSingle := by
  rw [Word.ofText?] at spells
  split at spells
  · next letter =>
    split at spells
    · next n read =>
      dsimp only at spells
      split at spells
      · next finite => exact ⟨letter, n, read, finite, (Option.some.inj spells).symm⟩
      · cases spells
    · cases spells
  · cases spells

theorem grammar_of_ofText? {w : Word} (spells : Word.ofText? (c :: cs) = some w) :
    c.isAlpha = true ∧ ∃ negative size x, NumberText cs negative size ∧ size < 2 ^ 128 - 2 ^ 103 ∧
      x.isFinite = true ∧ Single.isNegative x = negative ∧
      Single.value x = Single.rounded (if negative then -size else size) ∧ w = .ofLetter c.toUpper x := by
  obtain ⟨letter, n, read, finite, rfl⟩ := shape_of_ofText? spells
  have text := (numberText_of_free? read).1
  obtain ⟨n', read', range, sign, value⟩ := exists_toSingle text
  obtain rfl : n = n' := Option.some.inj (read.symm.trans read')
  exact ⟨letter, _, _, n.toSingle, text, range.mp finite, finite, sign, value finite, rfl⟩

/-- Texts with the same sign and the same value, rounded, are the same number. -/
theorem ofText?_congr {d : Char} {size' : ℚ} (letter : c.isAlpha = true) (letter' : d.isAlpha = true)
    (upper : c.toUpper = d.toUpper) (text : NumberText cs negative size) (text' : NumberText ds negative size')
    (same : Single.rounded size = Single.rounded size') : Word.ofText? (c :: cs) = Word.ofText? (d :: ds) := by
  obtain ⟨n, read, range, sign, value⟩ := exists_toSingle text
  obtain ⟨n', read', range', sign', value'⟩ := exists_toSingle text'
  have both : n.toSingle.isFinite = true ↔ n'.toSingle.isFinite = true := by
    rw [range, range', ← inRange_size text.size_nonneg, ← inRange_size text'.size_nonneg,
      ← Single.abs_rounded_lt_iff, ← Single.abs_rounded_lt_iff, same]
  have signed : Single.rounded (if negative then -size else size) = Single.rounded (if negative then -size' else size') := by
    rw [← signed_eq, ← signed_eq, Single.rounded_signed, Single.rounded_signed, same]
  rw [ofText?_cons letter read, ofText?_cons letter' read', upper]
  by_cases finite : n.toSingle.isFinite = true
  · have finite' := both.mp finite
    have number : n.toSingle = n'.toSingle :=
      Single.eq_of_value finite finite' (sign.trans sign'.symm)
        ((value finite).trans (signed.trans (value' finite').symm))
    rw [number]
  · rw [if_neg finite, if_neg (mt both.mpr finite)]

/-- Words are accepted exactly as the grammar says. The first character is a letter of the alphabet, the rest is a
number, and its exact size is below the middle between the greatest number of single precision and the next power of
two. The word is then made from the letter in upper case and from the one number that has the sign of the text and its
value rounded; nothing else of the text matters. No other first character, no letter alone, and no text with another
character after its letter is a word, be it a name of an infinity, a number in another base or one with its digits in
groups. -/
theorem accepted_exactly (c : Char) (cs : List Char) :
    ((Word.ofText? (c :: cs)).isSome = true ↔
      c.isAlpha = true ∧ ∃ negative size, NumberText cs negative size ∧ size < 2 ^ 128 - 2 ^ 103) ∧
    (∀ w, Word.ofText? (c :: cs) = some w ↔
      c.isAlpha = true ∧ ∃ negative size x, NumberText cs negative size ∧ x.isFinite = true ∧
        Single.isNegative x = negative ∧ Single.value x = Single.rounded (if negative then -size else size) ∧
        w = Word.ofLetter c.toUpper x) ∧
    (∀ d ds negative size size', c.isAlpha = true → d.isAlpha = true → c.toUpper = d.toUpper →
      NumberText cs negative size → NumberText ds negative size' → Single.rounded size = Single.rounded size' →
      Word.ofText? (c :: cs) = Word.ofText? (d :: ds)) ∧
    (128 ≤ c.toNat → Word.ofText? (c :: cs) = none) ∧
    (∀ d ∈ cs, d.isDigit = false → d ∉ numberMarks → Word.ofText? (c :: cs) = none) ∧
    Word.ofText? [c] = none ∧ Word.ofText? [] = none := by
  refine ⟨⟨?_, ?_⟩, fun w => ⟨?_, ?_⟩, fun d ds negative size size' => ofText?_congr, ?_, ?_, ?_, rfl⟩
  · intro accepted
    obtain ⟨w, spells⟩ := Option.isSome_iff_exists.mp accepted
    obtain ⟨letter, negative, size, -, text, range, -⟩ := grammar_of_ofText? spells
    exact ⟨letter, negative, size, text, range⟩
  · rintro ⟨letter, negative, size, text, range⟩
    obtain ⟨n, read, finite_iff, -⟩ := exists_toSingle text
    rw [ofText?_cons letter read, if_pos (finite_iff.mpr range)]
    rfl
  · intro spells
    obtain ⟨letter, negative, size, x, text, -, parts⟩ := grammar_of_ofText? spells
    exact ⟨letter, negative, size, x, text, parts⟩
  · rintro ⟨letter, negative, size, x, text, finite, sign, value, rfl⟩
    obtain ⟨n, read, range, sign', value'⟩ := exists_toSingle text
    have small : size < 2 ^ 128 - 2 ^ 103 := by
      have less := Single.abs_value_lt x
      rw [value, ← signed_eq, Single.rounded_signed, Single.abs_signed, Single.abs_rounded_lt_iff] at less
      exact (inRange_size text.size_nonneg).mp less
    have finite' := range.mpr small
    have same : n.toSingle = x :=
      Single.eq_of_value finite' finite (sign'.trans sign.symm) ((value' finite').trans value.symm)
    rw [ofText?_cons letter read, if_pos finite', same]
  · intro large
    refine Option.eq_none_iff_forall_ne_some.mpr fun w spells => ?_
    have small := letter_induction (p := fun c => c.toNat < 128) (by decide +kernel) (grammar_of_ofText? spells).1
    omega
  · intro d member plain mark
    refine Option.eq_none_iff_forall_ne_some.mpr fun w spells => ?_
    obtain ⟨letter, negative, size, x, text, -⟩ := grammar_of_ofText? spells
    rcases text.plain.1 d member with digit | given
    · rw [plain] at digit
      cases digit
    · exact mark given
  · refine Option.eq_none_iff_forall_ne_some.mpr fun w spells => ?_
    obtain ⟨letter, negative, size, x, text, -⟩ := grammar_of_ofText? spells
    exact text.plain.2 rfl

end Toolpath.Program

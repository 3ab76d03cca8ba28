import Mathlib
import Toolpath.Proofs.Program.Words
import Toolpath.Proofs.Text.Pieces

/-!
# The case of letters

Letters may be written in either case: what a line says is written in the same case as the line, and spells
the same words.
-/

namespace Toolpath.Program

/-- Changes the case of letters and nothing else. -/
structure Recases (f : Char → Char) : Prop where
  other : ∀ c, c.isAlpha = false → f c = c
  letter : ∀ c, c.isAlpha = true → (f c).isAlpha = true ∧ (f c).toUpper = c.toUpper

/-- What holds of the letters of the alphabet is found by trying them all. -/
theorem letter_induction {p : Char → Prop} [DecidablePred p]
    (all : ∀ n : Fin 128, (Char.ofNat n).isAlpha = true → p (Char.ofNat n)) {c : Char} (letter : c.isAlpha = true) :
    p c := by
  have small : c.toNat < 128 := by
    simp only [Char.isAlpha, Char.isUpper, Char.isLower, Bool.or_eq_true, Bool.and_eq_true, decide_eq_true_eq,
      UInt32.le_iff_toNat_le, ge_iff_le] at letter
    change (65 ≤ c.toNat ∧ c.toNat ≤ 90) ∨ 97 ≤ c.toNat ∧ c.toNat ≤ 122 at letter
    omega
  have named : Char.ofNat (⟨c.toNat, small⟩ : Fin 128) = c := Char.ofNat_toNat c
  rw [← named] at letter ⊢
  exact all _ letter

theorem recases_toUpper : Recases Char.toUpper := by
  refine ⟨?_, ?_⟩
  · intro c plain
    have small : ¬('a'.val ≤ c.val ∧ c.val ≤ 'z'.val) := by simp_all [Char.isAlpha, Char.isLower]
    exact dif_neg small
  · intro c letter
    exact letter_induction (p := fun c => c.toUpper.isAlpha = true ∧ c.toUpper.toUpper = c.toUpper)
      (by decide +kernel) letter

theorem recases_toLower : Recases Char.toLower := by
  refine ⟨?_, ?_⟩
  · intro c plain
    have capital : ¬(c.val ≥ 'A'.val ∧ c.val ≤ 'Z'.val) := by simp_all [Char.isAlpha, Char.isUpper]
    exact dif_neg capital
  · intro c letter
    exact letter_induction (p := fun c => c.toLower.isAlpha = true ∧ c.toLower.toUpper = c.toUpper)
      (by decide +kernel) letter

/-- The digits after a point, if there is one, and the rest. -/
def fractionDigits : List Char → List Char × List Char
  | '.' :: rest => rest.span Char.isDigit
  | cs => ([], cs)

theorem free?_eq (cs : List Char) :
    Decimal.Numeral.free? cs =
      let signed := Decimal.splitSign cs
      let whole := signed.2.span Char.isDigit
      let fraction := fractionDigits whole.2
      if whole.1.isEmpty && fraction.1.isEmpty then none
      else match fraction.2 with
        | [] => some ⟨signed.1, whole.1, Decimal.someDigits fraction.1, none⟩
        | c :: rest =>
          if c = 'e' || c = 'E' then
            (Decimal.exponent? rest).map fun e => ⟨signed.1, whole.1, Decimal.someDigits fraction.1, some e⟩
          else none := by
  unfold Decimal.Numeral.free?
  obtain ⟨negative, signed⟩ := Decimal.splitSign cs
  dsimp only
  obtain ⟨whole, rest⟩ := signed.span Char.isDigit
  dsimp only
  cases rest with
  | nil => rfl
  | cons c later =>
    by_cases point : c = '.'
    · subst point
      dsimp only [fractionDigits]
      obtain ⟨digits, rest⟩ := later.span Char.isDigit
      cases rest <;> rfl
    · simp [fractionDigits, point]

namespace Recases

variable {f : Char → Char} (recases : Recases f)
include recases

theorem isAlpha (c : Char) : (f c).isAlpha = c.isAlpha := by
  cases letter : c.isAlpha with
  | true => exact (recases.letter c letter).1
  | false => rw [recases.other c letter, letter]

theorem eq_iff {d : Char} (plain : d.isAlpha = false) (c : Char) : f c = d ↔ c = d := by
  cases letter : c.isAlpha with
  | true =>
    have kept : (f c).isAlpha = true := (recases.letter c letter).1
    refine iff_of_false ?_ ?_
    · rintro rfl
      simp [kept] at plain
    · rintro rfl
      simp [letter] at plain
  | false => rw [recases.other c letter]

/-- A test that no letter passes does not see the case. -/
theorem test {p : Char → Bool} (letters : ∀ c, c.isAlpha = true → p c = false) (c : Char) : p (f c) = p c := by
  cases letter : c.isAlpha with
  | true => rw [letters c letter, letters _ (recases.letter c letter).1]
  | false => rw [recases.other c letter]

theorem toUpper (c : Char) : (f c).toUpper = c.toUpper := by
  cases letter : c.isAlpha with
  | true => exact (recases.letter c letter).2
  | false => rw [recases.other c letter]

theorem isBlank (c : Char) : Text.isBlank (f c) = Text.isBlank c := by
  refine recases.test ?_ c
  intro d letter
  exact letter_induction (p := fun d => Text.isBlank d = false) (by decide +kernel) letter

theorem isDigit (c : Char) : (f c).isDigit = c.isDigit := by
  refine recases.test ?_ c
  intro d letter
  exact letter_induction (p := fun d => d.isDigit = false) (by decide +kernel) letter

/-- The mark of an exponent may be a letter of either case. -/
theorem isMark (c : Char) : (f c = 'e' ∨ f c = 'E') ↔ (c = 'e' ∨ c = 'E') := by
  have upper : ∀ d : Char, (d = 'e' ∨ d = 'E') ↔ d.toUpper = 'E' := by
    intro d
    cases letter : d.isAlpha with
    | true => exact letter_induction (p := fun d => (d = 'e' ∨ d = 'E') ↔ d.toUpper = 'E') (by decide +kernel) letter
    | false =>
      refine iff_of_false ?_ ?_
      · rintro (rfl | rfl) <;> simp at letter
      · rw [recases_toUpper.other d letter]
        rintro rfl
        simp at letter
  rw [upper, upper, recases.toUpper]

/-! ### Comments -/

theorem beforeSemicolon_map (line : List Char) : beforeSemicolon (line.map f) = (beforeSemicolon line).map f := by
  have test : (fun c => decide (c ≠ ';')) ∘ f = fun c => decide (c ≠ ';') := by
    funext c
    simp [recases.eq_iff (d := ';') rfl]
  rw [beforeSemicolon, List.takeWhile_map, test]
  rfl

theorem trim_map (cs : List Char) : Text.trim (cs.map f) = (Text.trim cs).map f := by
  have test : Text.isBlank ∘ f = Text.isBlank := funext recases.isBlank
  unfold Text.trim Text.trimEnd
  rw [List.dropWhile_map, test, ← List.map_reverse, List.dropWhile_map, test, List.map_reverse]

theorem consBlock_map (c : Char) (blocks : Blocks) :
    consBlock (f c) (blocks.1.map f, blocks.2.map (List.map f)) =
      ((consBlock c blocks).1.map f, (consBlock c blocks).2.map (List.map f)) := by
  have space : f ' ' = ' ' := recases.other ' ' rfl
  obtain ⟨text, closed⟩ := blocks
  simp only [consBlock, recases.eq_iff (d := ')') rfl, recases.eq_iff (d := '(') rfl]
  split
  · rfl
  · split
    · cases closed <;> simp [space]
    · rfl

theorem blankBlocks_map (cs : List Char) : blankBlocks (cs.map f) = (blankBlocks cs).map f := by
  have folded : (cs.map f).foldr consBlock ([], none) =
      ((cs.foldr consBlock ([], none)).1.map f, (cs.foldr consBlock ([], none)).2.map (List.map f)) := by
    induction cs with
    | nil => rfl
    | cons c cs ih => rw [List.map_cons, List.foldr_cons, List.foldr_cons, ih, recases.consBlock_map]
  exact congrArg Prod.fst folded

theorem blankRounds_map (fuel : Nat) (cs : List Char) : blankRounds fuel (cs.map f) = (blankRounds fuel cs).map f := by
  induction fuel generalizing cs with
  | zero => rfl
  | succ fuel ih =>
    have settled : ∀ ds : List Char, blankBlocks ds = ds → ∀ n, blankRounds n ds = ds := by
      intro ds still n
      cases n with
      | zero => rfl
      | succ n => simp [blankRounds, still]
    have round : ∀ ds : List Char, blankRounds (fuel + 1) ds = blankRounds fuel (blankBlocks ds) := by
      intro ds
      by_cases still : blankBlocks ds = ds
      · rw [settled ds still, still, settled ds still]
      · simp only [blankRounds, if_neg still]
    rw [round, round, recases.blankBlocks_map, ih]

theorem count_map {d : Char} (plain : d.isAlpha = false) (cs : List Char) : (cs.map f).count d = cs.count d := by
  rw [List.count, List.countP_map]
  refine List.countP_congr fun c _ => ?_
  simp [recases.eq_iff plain]

theorem withoutBlocks_map (cs : List Char) : withoutBlocks (cs.map f) = (withoutBlocks cs).map f := by
  have test : (fun c => decide (c ≠ '(')) ∘ f = fun c => decide (c ≠ '(') := by
    funext c
    simp [recases.eq_iff (d := '(') rfl]
  unfold withoutBlocks
  rw [recases.count_map rfl, recases.blankRounds_map, List.takeWhile_map, test]

theorem contains_map {d : Char} (plain : d.isAlpha = false) (cs : List Char) :
    (cs.map f).contains d = cs.contains d := by
  rw [Bool.eq_iff_iff, List.contains_iff_mem, List.contains_iff_mem, List.mem_map]
  refine ⟨?_, fun member => ⟨d, member, recases.other d plain⟩⟩
  rintro ⟨c, member, same⟩
  rwa [← (recases.eq_iff plain c).mp same]

theorem isOneBlock_map (cs : List Char) : isOneBlock (cs.map f) = isOneBlock cs := by
  cases cs with
  | nil => rfl
  | cons c cs =>
    by_cases opens : c = '('
    · subst opens
      have last : (cs.map f).getLast? = some ')' ↔ cs.getLast? = some ')' := by
        cases end? : cs.getLast? with
        | none => simp [end?]
        | some d => simp [end?, recases.eq_iff (d := ')') rfl]
      have begin : f '(' = '(' := recases.other '(' rfl
      simp only [List.map_cons, begin, isOneBlock, last, ← List.map_dropLast, recases.contains_map (d := ')') rfl]
    · have other : f c ≠ '(' := mt (recases.eq_iff rfl c).mp opens
      simp [isOneBlock, opens, other]

theorem interpretable?_map (line : List Char) :
    interpretable? (line.map f) = (interpretable? line).map (List.map f) := by
  unfold interpretable?
  rw [recases.beforeSemicolon_map, recases.trim_map]
  generalize Text.trim (beforeSemicolon line) = code
  simp only [recases.isOneBlock_map, recases.contains_map (d := '(') rfl, recases.withoutBlocks_map, recases.trim_map,
    List.isEmpty_map]
  split
  · rfl
  · split
    · rfl
    · split <;> rfl

/-! ### Words -/

theorem words_map (cs : List Char) : Text.words (cs.map f) = (Text.words cs).map (List.map f) := by
  have cut : Text.splitWord (cs.map f) =
      ((Text.splitWord cs).1.map f, (Text.splitWord cs).2.map (List.map f)) := by
    induction cs with
    | nil => rfl
    | cons c cs ih =>
      simp only [List.map_cons, Text.splitWord, ih, recases.isBlank, Text.consWord, List.isEmpty_map]
      split
      · split <;> rfl
      · rfl
  simp only [Text.words, cut, Text.consWord, List.isEmpty_map]
  split <;> rfl

theorem splitSign_map (cs : List Char) :
    Decimal.splitSign (cs.map f) = ((Decimal.splitSign cs).1, (Decimal.splitSign cs).2.map f) := by
  cases cs with
  | nil => rfl
  | cons c cs =>
    by_cases minus : c = '-'
    · subst minus
      rw [List.map_cons, recases.other '-' rfl]
      rfl
    · by_cases plus : c = '+'
      · subst plus
        rw [List.map_cons, recases.other '+' rfl]
        rfl
      · have notMinus : f c ≠ '-' := mt (recases.eq_iff rfl c).mp minus
        have notPlus : f c ≠ '+' := mt (recases.eq_iff rfl c).mp plus
        simp [Decimal.splitSign, minus, plus, notMinus, notPlus]

theorem map_digits {ds : List Char} (digits : ∀ c ∈ ds, c.isDigit = true) : ds.map f = ds := by
  have kept : ∀ c ∈ ds, f c = id c := by
    intro c member
    refine recases.other c ?_
    cases letter : c.isAlpha with
    | false => rfl
    | true =>
      have figure := letter_induction (p := fun d => d.isDigit = false) (by decide +kernel) letter
      rw [digits c member] at figure
      cases figure
  rw [List.map_congr_left kept, List.map_id]

theorem span_isDigit_map (cs : List Char) :
    (cs.map f).span Char.isDigit = ((cs.span Char.isDigit).1, (cs.span Char.isDigit).2.map f) := by
  have test : Char.isDigit ∘ f = Char.isDigit := funext recases.isDigit
  have digits := recases.map_digits fun c member => List.mem_takeWhile_imp (l := cs) member
  rw [List.span_eq_takeWhile_dropWhile, List.span_eq_takeWhile_dropWhile, List.takeWhile_map, List.dropWhile_map, test,
    digits]

theorem exponent?_map (cs : List Char) : Decimal.exponent? (cs.map f) = Decimal.exponent? cs := by
  unfold Decimal.exponent?
  rw [recases.splitSign_map]
  generalize Decimal.splitSign cs = signed
  obtain ⟨negative, ds⟩ := signed
  have test : Char.isDigit ∘ f = Char.isDigit := funext recases.isDigit
  simp only [List.isEmpty_map, List.all_map, test]
  split
  · rfl
  · next digits =>
    have all : ds.all Char.isDigit = true := by simp_all
    rw [recases.map_digits (List.all_eq_true.mp all)]

theorem fractionDigits_map (cs : List Char) :
    fractionDigits (cs.map f) = ((fractionDigits cs).1, (fractionDigits cs).2.map f) := by
  cases cs with
  | nil => rfl
  | cons c cs =>
    by_cases point : c = '.'
    · subst point
      rw [List.map_cons, recases.other '.' rfl]
      exact recases.span_isDigit_map cs
    · have other : f c ≠ '.' := mt (recases.eq_iff rfl c).mp point
      simp [fractionDigits, point, other]

theorem free?_map (cs : List Char) : Decimal.Numeral.free? (cs.map f) = Decimal.Numeral.free? cs := by
  rw [free?_eq, free?_eq]
  simp only [recases.splitSign_map, recases.span_isDigit_map, recases.fractionDigits_map]
  split
  · rfl
  · generalize fractionDigits ((Decimal.splitSign cs).2.span Char.isDigit).2 = fraction
    obtain ⟨digits, rest⟩ := fraction
    cases rest with
    | nil => rfl
    | cons c rest =>
      have mark := recases.isMark c
      simp only [List.map_cons, Bool.or_eq_true, decide_eq_true_eq, mark, recases.exponent?_map]

theorem ofText?_map (word : List Char) : Word.ofText? (word.map f) = Word.ofText? word := by
  cases word with
  | nil => rfl
  | cons c cs => simp only [List.map_cons, Word.ofText?, recases.isAlpha, recases.free?_map, recases.toUpper]

end Recases

end Toolpath.Program

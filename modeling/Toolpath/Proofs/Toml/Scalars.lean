import Toolpath.Proofs.Decimal.Numerals
import Toolpath.Toml.Printer
import Toolpath.Toml.Reader

/-!
# Scalars read back

A scalar is tried as a text and as a moment of time before it is read as what it is. The text of a scalar is
neither: it does not begin with a quote, and digits in it are not followed by the marks of a date or a time.
-/

namespace Toolpath.Toml

open Decimal

variable {rest : List Char}

/-! ### Rows of digits -/

theorem groupedDigits_eq {ds : List Char} (digits : ∀ c ∈ ds, c.isDigit = true)
    (stop : Follows ('.' :: 'e' :: stops) rest) : groupedDigits Char.isDigit (ds ++ rest) = (ds, rest) := by
  induction ds with
  | nil =>
    cases rest with
    | nil => rfl
    | cons c cs =>
      have notDigit := stop.not_digit c rfl
      have notUnderscore : c ≠ '_' := by
        rintro rfl
        have mark := stop '_' rfl
        simp [stops] at mark
      rw [List.nil_append, groupedDigits, if_neg (by rw [notDigit]; decide), decide_eq_false notUnderscore,
        Bool.false_and, if_neg Bool.false_ne_true]
  | cons d ds ih =>
    have later := ih fun c member => digits c (List.mem_cons_of_mem d member)
    rw [List.cons_append, groupedDigits, if_pos (digits d List.mem_cons_self), later]

theorem digits?_eq {ds : List Char} (nonempty : ds ≠ []) (digits : ∀ c ∈ ds, c.isDigit = true)
    (stop : Follows ('.' :: 'e' :: stops) rest) : digits? Char.isDigit (ds ++ rest) = some (ds, rest) := by
  unfold digits?
  rw [groupedDigits_eq digits stop]
  cases ds with
  | nil => exact absurd rfl nonempty
  | cons d ds =>
    have digit := digits d List.mem_cons_self
    rw [List.cons_append, List.head?_cons, Option.any_some, digit, if_pos rfl]

theorem wholeDigits?_eq {n : Numeral} (proper : n.Proper) (stop : Follows ('.' :: 'e' :: stops) rest) :
    wholeDigits? (n.whole ++ rest) = some (n.whole, rest) := by
  rcases proper.whole with zero | row
  · rw [zero]
    rfl
  · have read := digits?_eq row.ne_nil row.digits stop
    obtain ⟨c, cs, whole, some⟩ := row.leading
    rw [whole, List.cons_append] at read ⊢
    unfold wholeDigits?
    split
    · next same =>
      cases same
      exact absurd rfl some
    · exact read

theorem fraction?_eq {n : Numeral} (proper : n.Proper) (stop : Follows ('e' :: stops) rest) :
    fraction? (n.fractionText ++ rest) = some (n.fraction, rest) := by
  unfold Numeral.fractionText
  cases given : n.fraction with
  | none =>
    unfold fraction?
    split
    · next same =>
      have mark := stop '.' (by
        change '.' ∈ ([] ++ rest).head?
        rw [same]
        rfl)
      simp [stops] at mark
    · rfl
  | some ds =>
    obtain ⟨some, digits⟩ := proper.fraction ds given
    change (digits? Char.isDigit (ds ++ rest)).map _ = _
    rw [digits?_eq some digits (stop.mono (List.subset_cons_self _ _))]
    rfl

theorem exponent?_eq (n : Numeral) (stop : Follows stops rest) :
    exponent? (n.exponentText ++ rest) = some (n.exponent, rest) := by
  unfold Numeral.exponentText
  cases given : n.exponent with
  | none =>
    cases rest with
    | nil => rfl
    | cons c cs =>
      change (if (decide (c = 'e') || decide (c = 'E')) = true then _ else _) = _
      rw [if_neg (stop.not_exponent c rfl)]
  | some e =>
    have read := digits?_eq (Numeral.proper_ofNat e.natAbs).ne_nil (fun c => isDigit_digitsOf)
      (stop.mono fun c member => List.mem_cons_of_mem _ (List.mem_cons_of_mem _ member))
    change digits? Char.isDigit (digitsOf e.natAbs ++ rest) = some (digitsOf e.natAbs, rest) at read
    unfold exponent?
    simp only [List.cons_append, decide_true, Bool.true_or, if_true]
    rw [splitSign_exponent]
    dsimp only
    rw [read]
    dsimp only [Option.map_some]
    rw [ofDigits_digitsOf]
    simp only [decide_eq_true_eq, signed_natAbs]

/-! ### Numerals -/

theorem splitSign_render {n : Numeral} (proper : n.Proper) :
    splitSign (n.render ++ rest) = (n.negative, n.whole ++ (n.fractionText ++ (n.exponentText ++ rest))) := by
  obtain ⟨c, cs, whole, digit⟩ := proper.exists_digit
  rw [n.render_eq]
  simp only [List.append_assoc]
  cases negative : n.negative with
  | false =>
    rw [if_neg Bool.false_ne_true, List.nil_append, whole, List.cons_append]
    unfold splitSign
    split
    · next same =>
      cases same
      cases digit
    · next same =>
      cases same
      cases digit
    · rfl
  | true => rfl

theorem decimalNumber?_render {n : Numeral} (proper : n.Proper) (stop : Follows stops rest) :
    decimalNumber? (n.render ++ rest) = (ofNumeral? n).map fun s => (s, rest) := by
  unfold decimalNumber?
  rw [splitSign_render proper]
  dsimp only
  rw [wholeDigits?_eq proper (n.follows_fractionText stop)]
  simp only [Option.bind_eq_bind, Option.bind_some]
  rw [fraction?_eq proper (n.follows_exponentText stop)]
  simp only [Option.bind_some]
  rw [exponent?_eq n stop]
  simp only [Option.bind_some]
  cases ofNumeral? n <;> rfl

/-! ### Scalars -/

/-- A scalar with a text of its own: an integer within the bounds, or a numeral that is proper and is no
integer. -/
def Scalar.Spelled : Scalar → Prop
  | .integer n => leastInteger ≤ n ∧ n ≤ greatestInteger
  | .decimal n => n.Proper ∧ n.isInteger = false ∧ decimal? n = some (.decimal n)
  | _ => True

theorem special?_render {n : Numeral} (proper : n.Proper) (rest : List Char) : special? (n.render ++ rest) = none := by
  obtain ⟨c, cs, whole, digit⟩ := proper.exists_digit
  unfold special?
  rw [splitSign_render proper, whole, List.cons_append]
  split
  · next same =>
    obtain rfl := (List.cons.inj (Prod.mk.inj same).2).1
    cases digit
  · next same =>
    obtain rfl := (List.cons.inj (Prod.mk.inj same).2).1
    cases digit
  · rfl

/-- A zero in front is not followed by another character than a mark. -/
theorem second_of_zero {n : Numeral} (proper : n.Proper) (stop : Follows stops rest) {c : Char} {tail : List Char}
    (same : n.render ++ rest = '0' :: c :: tail) : c ∈ '.' :: 'e' :: stops := by
  have marks := n.follows_fractionText stop
  rw [n.render_eq] at same
  simp only [List.append_assoc] at same
  cases negative : n.negative with
  | true =>
    rw [negative] at same
    cases same
  | false =>
    rw [negative, if_neg Bool.false_ne_true, List.nil_append] at same
    rcases proper.whole with zero | row
    · rw [zero] at same
      have after : n.fractionText ++ (n.exponentText ++ rest) = c :: tail := (List.cons.inj same).2
      rw [after] at marks
      exact marks c rfl
    · obtain ⟨d, ds, whole, some⟩ := row.leading
      rw [whole] at same
      exact absurd (List.cons.inj same).1 some

/-- A numeral begins no word, and no digits in another base. -/
theorem scalar?_render {n : Numeral} (proper : n.Proper) (stop : Follows stops rest) :
    scalar? (n.render ++ rest) = decimalNumber? (n.render ++ rest) := by
  have second : ∀ c tail, n.render ++ rest = '0' :: c :: tail → c ∈ '.' :: 'e' :: stops :=
    fun _ _ => second_of_zero proper stop
  have special := special?_render proper rest
  obtain ⟨c, cs, front, head⟩ := proper.exists_head
  rw [front, List.cons_append] at second special ⊢
  unfold scalar?
  split
  · next same => exact absurd (List.cons.inj same).1 (Numeral.ne_of_head head (by decide) rfl)
  · next same => exact absurd (List.cons.inj same).1 (Numeral.ne_of_head head (by decide) rfl)
  · next same =>
    have mark := second _ _ same
    simp [stops] at mark
  · next same =>
    have mark := second _ _ same
    simp [stops] at mark
  · next same =>
    have mark := second _ _ same
    simp [stops] at mark
  · rw [special]
    rfl

theorem toInt_ofInt (n : Int) : (Numeral.ofInt n).toInt = n := by
  unfold Numeral.toInt Numeral.ofInt
  simp only [ofDigits_digitsOf, decide_eq_true_eq, signed_natAbs]

theorem proper_ofInt (n : Int) : (Numeral.ofInt n).Proper := ⟨(Numeral.proper_ofNat n.natAbs).whole, by rintro ds ⟨⟩⟩

theorem scalar?_eq {s : Scalar} (spelled : s.Spelled) (stop : Follows stops rest) :
    scalar? (s.render ++ rest) = some (s, rest) := by
  match s, spelled with
  | .integer n, ⟨least, most⟩ =>
    change scalar? ((Numeral.ofInt n).render ++ rest) = _
    rw [scalar?_render (proper_ofInt n) stop, decimalNumber?_render (proper_ofInt n) stop]
    change ((integer? (Numeral.ofInt n).toInt).map _) = _
    rw [toInt_ofInt, integer?, decide_eq_true least, decide_eq_true most]
    rfl
  | .decimal n, ⟨proper, notInteger, same⟩ =>
    change scalar? (n.render ++ rest) = _
    rw [scalar?_render proper stop, decimalNumber?_render proper stop, ofNumeral?, notInteger, if_neg Bool.false_ne_true,
      same]
    rfl
  | .infinity true, _ => rfl
  | .infinity false, _ => rfl
  | .notANumber, _ => rfl
  | .boolean true, _ => rfl
  | .boolean false, _ => rfl

/-! ### What a scalar is not -/

theorem fixedDigits?_eq {ds : List Char} (digits : ∀ c ∈ ds, c.isDigit = true)
    (stop : Follows ('.' :: 'e' :: stops) rest) (count : ℕ) : fixedDigits? count (ds ++ rest)
      = if count ≤ ds.length then some (ofDigits (ds.take count), ds.drop count ++ rest) else none := by
  unfold fixedDigits?
  dsimp only
  by_cases enough : count ≤ ds.length
  · have taken : (ds ++ rest).take count = ds.take count := List.take_append_of_le_length enough
    have length : (ds.take count).length = count := by
      rw [List.length_take]
      omega
    have all : (ds.take count).all Char.isDigit = true :=
      List.all_eq_true.mpr fun c member => digits c (List.mem_of_mem_take member)
    rw [taken, length, all, List.drop_append_of_le_length enough, if_pos enough]
    simp
  · rw [if_neg enough]
    refine if_neg fun both => ?_
    obtain ⟨length, all⟩ := Bool.and_eq_true_iff.mp both
    have length := of_decide_eq_true length
    rw [List.take_append, List.take_of_length_le (by omega)] at length all
    cases rest with
    | nil =>
      rw [List.take_nil, List.append_nil] at length
      omega
    | cons c cs =>
      have here : c ∈ ds ++ List.take (count - ds.length) (c :: cs) := by
        obtain ⟨k, more⟩ : ∃ k, count - ds.length = k + 1 := ⟨count - ds.length - 1, by omega⟩
        rw [more]
        exact List.mem_append_right _ List.mem_cons_self
      have digit := List.all_eq_true.mp all c here
      rw [stop.not_digit c rfl] at digit
      cases digit

theorem expect?_none {c : Char} {ds : List Char} (digits : ∀ c ∈ ds, c.isDigit = true)
    (stop : Follows ('.' :: 'e' :: stops) rest) (notDigit : c.isDigit = false) (notMark : c ∉ '.' :: 'e' :: stops) :
    expect? c (ds ++ rest) = none := by
  cases ds with
  | nil =>
    cases rest with
    | nil => rfl
    | cons d cs =>
      have mark := stop d rfl
      refine if_neg ?_
      rintro rfl
      exact notMark mark
  | cons d ds =>
    have digit := digits d List.mem_cons_self
    refine if_neg ?_
    rintro rfl
    rw [notDigit] at digit
    cases digit

theorem afterMoment?_digits {ds : List Char} (digits : ∀ c ∈ ds, c.isDigit = true)
    (stop : Follows ('.' :: 'e' :: stops) rest) : afterMoment? (ds ++ rest) = none := by
  have later : ∀ k, ∀ c ∈ ds.drop k, c.isDigit = true := fun k c member => digits c (List.mem_of_mem_drop member)
  have notDate : afterDate? (ds ++ rest) = none := by
    unfold afterDate?
    rw [fixedDigits?_eq digits stop]
    split
    · change (do
        let cs ← expect? '-' (ds.drop 4 ++ rest)
        _) = _
      rw [expect?_none (later 4) stop rfl (by simp [stops])]
      rfl
    · rfl
  have notTime : afterTime? (ds ++ rest) = none := by
    unfold afterTime?
    cases hour : twoDigits? 0 23 (ds ++ rest) with
    | none => rfl
    | some found =>
      obtain ⟨n, cs⟩ := found
      have left : cs = ds.drop 2 ++ rest := by
        unfold twoDigits? at hour
        rw [fixedDigits?_eq digits stop] at hour
        split at hour
        · change (if (decide (0 ≤ _) && decide (_ ≤ 23)) = true then some (_, ds.drop 2 ++ rest) else none) = _ at hour
          split at hour
          · exact (Prod.mk.inj (Option.some.inj hour)).2.symm
          · cases hour
        · cases hour
      change (do
        let cs ← expect? ':' cs
        _) = _
      rw [left, expect?_none (later 2) stop rfl (by simp [stops])]
      rfl
  unfold afterMoment?
  rw [notDate]
  exact notTime

theorem afterMoment?_head {c : Char} (notDigit : c.isDigit = false) (cs : List Char) :
    afterMoment? (c :: cs) = none := by
  have none : ∀ k, fixedDigits? (k + 1) (c :: cs) = none := by
    intro k
    refine if_neg fun both => ?_
    have all := (Bool.and_eq_true_iff.mp both).2
    rw [List.take_succ_cons, List.all_cons, notDigit] at all
    cases all
  unfold afterMoment? afterDate? afterTime? twoDigits?
  rw [none 3, none 1]
  rfl

theorem afterMoment?_numeral {n : Numeral} (proper : n.Proper) (stop : Follows stops rest) :
    afterMoment? (n.render ++ rest) = none := by
  rw [n.render_eq]
  simp only [List.append_assoc]
  cases n.negative with
  | true => exact afterMoment?_head rfl _
  | false =>
    rw [if_neg Bool.false_ne_true, List.nil_append]
    exact afterMoment?_digits proper.whole_digits (n.follows_fractionText stop)

theorem afterMoment?_scalar {s : Scalar} (spelled : s.Spelled) (stop : Follows stops rest) :
    afterMoment? (s.render ++ rest) = none := by
  match s, spelled with
  | .integer n, _ => exact afterMoment?_numeral (proper_ofInt n) stop
  | .decimal n, ⟨proper, _⟩ => exact afterMoment?_numeral proper stop
  | .infinity true, _ => exact afterMoment?_head rfl _
  | .infinity false, _ => exact afterMoment?_head rfl _
  | .notANumber, _ => exact afterMoment?_head rfl _
  | .boolean true, _ => exact afterMoment?_head rfl _
  | .boolean false, _ => exact afterMoment?_head rfl _

/-- The characters that begin something else than a scalar, or are passed over in front of it. -/
def openers : List Char := [doubleQuote, singleQuote, '[', '\x7b', ' ', '\t']

theorem scalar_head {s : Scalar} (spelled : s.Spelled) : ∃ c cs, s.render = c :: cs ∧ c ∉ openers := by
  have numeral : ∀ n : Numeral, n.Proper → ∃ c cs, n.render = c :: cs ∧ c ∉ openers := by
    intro n proper
    obtain ⟨c, cs, front, head⟩ := proper.exists_head
    refine ⟨c, cs, front, fun opener => ?_⟩
    simp only [openers, doubleQuote, singleQuote, List.mem_cons, List.not_mem_nil, or_false] at opener
    rcases head with rfl | digit
    · revert opener
      decide
    · rcases opener with rfl | rfl | rfl | rfl | rfl | rfl <;> cases digit
  match s, spelled with
  | .integer n, _ => exact numeral _ (proper_ofInt n)
  | .decimal n, ⟨proper, _⟩ => exact numeral n proper
  | .infinity true, _ => exact ⟨'-', _, rfl, by decide⟩
  | .infinity false, _ => exact ⟨'i', _, rfl, by decide⟩
  | .notANumber, _ => exact ⟨'n', _, rfl, by decide⟩
  | .boolean true, _ => exact ⟨'t', _, rfl, by decide⟩
  | .boolean false, _ => exact ⟨'f', _, rfl, by decide⟩

theorem quoted?_none {c : Char} (cs : List Char) (notDouble : c ≠ doubleQuote) (notSingle : c ≠ singleQuote) :
    quoted? (c :: cs) = none := by
  unfold quoted? quotedLine?
  rw [if_neg, if_neg]
  · dsimp only
    rw [if_neg notDouble, if_neg notSingle]
  · intro same
    exact notSingle (List.cons.inj same).1
  · intro same
    exact notDouble (List.cons.inj same).1

/-- A scalar comes back from its text. -/
theorem value?_scalar {s : Scalar} (spelled : s.Spelled) (stop : Follows stops rest) (fuel depth : ℕ) :
    value? (fuel + 1) depth (s.render ++ rest) = some (.scalar s, rest) := by
  have read := scalar?_eq spelled stop
  have notMoment := afterMoment?_scalar spelled stop
  obtain ⟨c, cs, front, notOpener⟩ := scalar_head spelled
  have differs : ∀ d ∈ openers, c ≠ d := by
    rintro d opener rfl
    exact notOpener opener
  rw [front, List.cons_append] at read notMoment ⊢
  have simple : simple? (c :: (cs ++ rest)) = some (.scalar s, rest) := by
    unfold simple?
    rw [quoted?_none _ (differs _ (by simp [openers])) (differs _ (by simp [openers])), notMoment, read]
    rfl
  unfold value?
  split
  · next same => exact absurd (List.cons.inj same).1 (differs '[' (by simp [openers]))
  · next same => exact absurd (List.cons.inj same).1 (differs '[' (by simp [openers]))
  · next same => exact absurd (List.cons.inj same).1 (differs '\x7b' (by simp [openers]))
  · next same => exact absurd (List.cons.inj same).1 (differs '\x7b' (by simp [openers]))
  · exact simple

end Toolpath.Toml

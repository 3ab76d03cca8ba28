import Toolpath.Json.Printer
import Toolpath.Json.Reader
import Toolpath.Proofs.Decimal.Numerals

/-!
# What is written is read back

A value is read back from its indented text: numerals that are written properly, strings with any characters,
and arrays and objects of such values.
-/

namespace Toolpath.Json

open Decimal

variable {marks rest : List Char}

/-! ### Numerals -/

theorem wholeDigits?_eq {ds : List Char} (whole : ds = ['0'] ∨ Row ds)
    (stop : ∀ c ∈ rest.head?, c.isDigit = false) : wholeDigits? (ds ++ rest) = some (ds, rest) := by
  unfold wholeDigits?
  rcases whole with rfl | row
  · have digits : ∀ c ∈ ['0'], c.isDigit = true := fun c member => isDigit_zeros (k := 1) member
    rw [span_eq digits stop]
    rfl
  · rw [span_eq row.digits stop]
    obtain ⟨c, cs, rfl, some⟩ := row.leading
    split
    · next same => cases same
    · next same =>
      cases same
      exact absurd rfl some
    · next same =>
      cases same
      exact absurd rfl some
    · next same =>
      cases same
      rfl

theorem fraction?_eq {n : Numeral} (proper : n.Proper) (stop : Follows ('e' :: stops) rest) :
    fraction? (n.fractionText ++ rest) = some (n.fraction, rest) := by
  unfold Numeral.fractionText
  cases given : n.fraction with
  | none =>
    unfold fraction?
    split
    · next same =>
      have mark := stop '.' (by
        change '.' ∈ ([] ++ rest).head?
        rw [same]
        rfl)
      simp [stops] at mark
    · rfl
  | some ds =>
    obtain ⟨some, digits⟩ := proper.fraction ds given
    have split : (ds ++ rest).span Char.isDigit = (ds, rest) :=
      span_eq digits (stop.mono (List.subset_cons_self _ _)).not_digit
    rw [List.cons_append]
    simp only [fraction?]
    rw [split]
    cases ds with
    | nil => exact absurd rfl some
    | cons d ds => rfl

theorem exponentPart?_eq (n : Numeral) (stop : Follows stops rest) :
    exponentPart? (n.exponentText ++ rest) = some (n.exponent, rest) := by
  unfold Numeral.exponentText
  cases given : n.exponent with
  | none =>
    cases rest with
    | nil => rfl
    | cons c cs =>
      change (if (decide (c = 'e') || decide (c = 'E')) = true then _ else _) = _
      rw [if_neg (stop.not_exponent c rfl)]
  | some e =>
    have split : (digitsOf e.natAbs ++ rest).span Char.isDigit = (digitsOf e.natAbs, rest) := by
      refine span_eq (fun c => isDigit_digitsOf) ?_
      refine Follows.not_digit (stop.mono ?_)
      exact fun c member => List.mem_cons_of_mem _ (List.mem_cons_of_mem _ member)
    have some := (Numeral.proper_ofNat e.natAbs).ne_nil
    change digitsOf e.natAbs ≠ [] at some
    have value := ofDigits_digitsOf e.natAbs
    unfold exponentPart?
    simp only [List.cons_append, decide_true, Bool.true_or, if_true]
    rw [splitSign_exponent]
    dsimp only
    rw [split]
    generalize digitsOf e.natAbs = ds at *
    cases ds with
    | nil => exact absurd rfl some
    | cons d ds =>
      dsimp only
      rw [value]
      simp only [decide_eq_true_eq, signed_natAbs]

theorem numeral?_render {n : Numeral} (proper : n.Proper) (stop : Follows stops rest) :
    numeral? (n.render ++ rest) = some (n, rest) := by
  obtain ⟨c, cs, whole, digit⟩ := proper.exists_digit
  have unsigned : numeral? (n.render ++ rest) =
      (wholeDigits? (n.whole ++ (n.fractionText ++ (n.exponentText ++ rest)))).bind fun whole =>
        (fraction? whole.2).bind fun fraction => (exponentPart? fraction.2).bind fun exponent =>
          some (⟨n.negative, whole.1, fraction.1, exponent.1⟩, exponent.2) := by
    rw [n.render_eq]
    unfold numeral?
    cases negative : n.negative with
    | false =>
      simp only [Bool.false_eq_true, if_false, List.nil_append, List.append_assoc, whole, List.cons_append]
      split
      · next same =>
        cases same
        cases digit
      · rfl
    | true =>
      simp only [if_true, List.append_assoc, List.cons_append, List.nil_append]
      rfl
  rw [unsigned, wholeDigits?_eq proper.whole (n.follows_fractionText stop).not_digit, Option.bind_some,
    fraction?_eq proper (n.follows_exponentText stop), Option.bind_some, exponentPart?_eq n stop, Option.bind_some]

/-! ### Strings -/

theorem hexNumber?_control : ∀ n : ℕ, n < 32 →
    Text.hexNumber? ['0', '0', Text.hexDigit (n / 16), Text.hexDigit (n % 16)] = some n := by decide +kernel

/-- One character is read as one piece, which spells it. -/
theorem pieces?_escape (c : Char) (fuel : ℕ) (tail : List Char) :
    ∃ p, pieces? (fuel + 1) (escape c ++ tail) = (pieces? fuel tail).map (fun (later, rest) => (p :: later, rest)) ∧
      ∀ later cs, spell? later = some cs → spell? (p :: later) = some (c :: cs) := by
  have named : ∀ e : Char, escaped? e = some c → e ≠ 'u' →
      pieces? (fuel + 1) (['\\', e] ++ tail)
        = (pieces? fuel tail).map (fun (later, rest) => (.char c :: later, rest)) := by
    intro e known notUnit
    rw [List.cons_append, List.cons_append, List.nil_append, pieces?, if_neg (by decide), if_pos rfl, known]
    · cases pieces? fuel tail <;> rfl
    · exact notUnit
  have spells : ∀ later cs, spell? later = some cs → spell? (.char c :: later) = some (c :: cs) := by
    intro later cs spelled
    rw [spell?, spelled]
    rfl
  unfold escape
  split
  · next same => exact ⟨.char c, named _ (by rw [same]; rfl) (by decide), spells⟩
  split
  · next same => exact ⟨.char c, named _ (by rw [same]; rfl) (by decide), spells⟩
  split
  · next same => exact ⟨.char c, named _ (by rw [same]; rfl) (by decide), spells⟩
  split
  · next same => exact ⟨.char c, named _ (by rw [same]; rfl) (by decide), spells⟩
  split
  · next same => exact ⟨.char c, named _ (by rw [same]; rfl) (by decide), spells⟩
  split
  · next same =>
    obtain rfl : c = '\x08' := Char.toNat_inj.mp same
    exact ⟨.char '\x08', named _ rfl (by decide), spells⟩
  split
  · next same =>
    obtain rfl : c = '\x0c' := Char.toNat_inj.mp same
    exact ⟨.char '\x0c', named _ rfl (by decide), spells⟩
  next notQuote notSlash _ _ _ _ _ =>
  split
  · next control =>
    refine ⟨.unit c.toNat, ?_, fun later cs spelled => ?_⟩
    · simp only [List.cons_append, List.nil_append]
      rw [pieces?, if_neg (by decide), if_pos rfl]
      dsimp only
      rw [hexUnit?, hexNumber?_control c.toNat control]
      change (do
        let (later, rest) ← pieces? fuel tail
        some (Piece.unit c.toNat :: later, rest)) = _
      cases pieces? fuel tail <;> rfl
    · have plain : unitChar? c.toNat = some c := by
        unfold unitChar?
        rw [if_neg (by simp; omega), Char.ofNat_toNat]
      unfold spell?
      rw [plain]
      dsimp only
      rw [spelled]
      rfl
  · next notControl =>
    refine ⟨.char c, ?_, spells⟩
    rw [List.cons_append, List.nil_append, pieces?.eq_def]
    dsimp only
    rw [if_neg notQuote, if_neg notSlash, if_neg notControl]
    cases pieces? fuel tail <;> rfl

theorem pieces?_text (cs rest : List Char) (fuel : ℕ) :
    ∃ ps, pieces? (cs.length + 1 + fuel) (cs.flatMap escape ++ '"' :: rest) = some (ps, rest) ∧
      spell? ps = some cs := by
  induction cs with
  | nil =>
    refine ⟨[], ?_, rfl⟩
    rw [List.length_nil, Nat.zero_add, Nat.add_comm]
    rfl
  | cons c cs ih =>
    obtain ⟨ps, read, spelled⟩ := ih
    obtain ⟨p, step, spells⟩ := pieces?_escape c (cs.length + 1 + fuel) (cs.flatMap escape ++ '"' :: rest)
    refine ⟨p :: ps, ?_, spells ps cs spelled⟩
    rw [List.flatMap_cons, List.append_assoc, List.length_cons, show cs.length + 1 + 1 + fuel = cs.length + 1 + fuel + 1 by omega,
      step, read]
    rfl

theorem length_le_flatMap_escape (cs : List Char) : cs.length ≤ (cs.flatMap escape).length := by
  induction cs with
  | nil => exact le_refl _
  | cons c cs ih =>
    have some : 1 ≤ (escape c).length := by
      unfold escape
      split_ifs <;> simp
    rw [List.flatMap_cons, List.length_append, List.length_cons]
    omega

theorem string?_text (s : String) (rest : List Char) :
    string? (s.toList.flatMap escape ++ '"' :: rest) = some (some s, rest) := by
  have long := length_le_flatMap_escape s.toList
  obtain ⟨ps, read, spelled⟩ := pieces?_text s.toList rest
    ((s.toList.flatMap escape ++ '"' :: rest).length - s.toList.length)
  unfold string?
  rw [show (s.toList.flatMap escape ++ '"' :: rest).length + 1 = s.toList.length + 1
      + ((s.toList.flatMap escape ++ '"' :: rest).length - s.toList.length) by
    rw [List.length_append]
    omega, read]
  change some ((spell? ps).map String.ofList, rest) = _
  rw [spelled, Option.map_some, String.ofList_toList]

/-! ### Values -/

mutual

/-- A value with a text of its own: its numerals are proper, and its strings are texts. -/
def Value.Spelled : Value → Prop
  | .null => True
  | .bool _ => True
  | .number n => n.Proper
  | .string s => s.isSome = true
  | .array items => SpelledItems items
  | .object members => SpelledMembers members

def SpelledItems : List Value → Prop
  | [] => True
  | v :: later => v.Spelled ∧ SpelledItems later

def SpelledMembers : List (Content × Value) → Prop
  | [] => True
  | (key, v) :: later => key.isSome = true ∧ v.Spelled ∧ SpelledMembers later

end

theorem newline_follows (depth : ℕ) (rest : List Char) : Follows stops (newline depth ++ rest) :=
  follows_cons (by simp [stops]) _

theorem skipSpace_newline {c : Char} (some : isSpace c = false) (depth : ℕ) (rest : List Char) :
    skipSpace (newline depth ++ c :: rest) = c :: rest := by
  have blank : ∀ d ∈ newline depth, isSpace d = true := by
    intro d member
    rcases List.mem_cons.mp member with rfl | space
    · rfl
    · rw [List.eq_of_mem_replicate space]
      rfl
  rw [skipSpace, List.dropWhile_append_of_pos blank, List.dropWhile_cons_of_neg (by rw [some]; decide)]

theorem isSpace_of_digit {c : Char} (digit : c.isDigit = true) : isSpace c = false := by
  have bounds := Char.isDigit_iff_toNat.mp digit
  unfold isSpace
  simp only [Bool.or_eq_false_iff, decide_eq_false_iff_not]
  refine ⟨⟨⟨?_, ?_⟩, ?_⟩, ?_⟩
  all_goals
    rintro rfl
    revert bounds
    decide

/-- A value begins with a character that is no blank and closes nothing. -/
theorem prettyAt_head {v : Value} (spelled : v.Spelled) (depth : ℕ) :
    ∃ c cs, v.prettyAt depth = c :: cs ∧ isSpace c = false ∧ c ≠ ']' := by
  have opens : ∀ start stop items, isSpace start = false → start ≠ ']' →
      ∃ c cs, bracketed start stop depth items = c :: cs ∧ isSpace c = false ∧ c ≠ ']' := by
    intro start stop items some notClose
    unfold bracketed
    split
    · exact ⟨start, _, rfl, some, notClose⟩
    · exact ⟨start, _, rfl, some, notClose⟩
  cases v with
  | null => exact ⟨'n', _, rfl, rfl, by decide⟩
  | bool b =>
    cases b with
    | false => exact ⟨'f', _, rfl, rfl, by decide⟩
    | true => exact ⟨'t', _, rfl, rfl, by decide⟩
  | number n =>
    obtain ⟨c, cs, front, head⟩ := Numeral.Proper.exists_head spelled
    refine ⟨c, cs, front, ?_, Numeral.ne_of_head head (by decide) rfl⟩
    rcases head with rfl | digit
    · rfl
    · exact isSpace_of_digit digit
  | string s => exact ⟨'"', _, rfl, rfl, by decide⟩
  | array items => exact opens '[' ']' _ rfl (by decide)
  | object members => exact opens '\x7b' '\x7d' _ rfl (by decide)

theorem skipSpace_pretty {v : Value} (spelled : v.Spelled) (depth : ℕ) (rest : List Char) :
    skipSpace (v.prettyAt depth ++ rest) = v.prettyAt depth ++ rest := by
  obtain ⟨c, cs, front, some, _⟩ := prettyAt_head spelled depth
  rw [front, List.cons_append, skipSpace, List.dropWhile_cons_of_neg (by rw [some]; decide)]

theorem value?_numeral {c : Char} (cs : List Char) (fuel : ℕ) (head : c = '-' ∨ c.isDigit = true) :
    value? (fuel + 1) (c :: cs) = (numeral? (c :: cs)).map fun (n, rest) => (.number n, rest) := by
  unfold value?
  split
  · next same => exact absurd (List.cons.inj same).1 (Numeral.ne_of_head head (by decide) rfl)
  · next same => exact absurd (List.cons.inj same).1 (Numeral.ne_of_head head (by decide) rfl)
  · next same => exact absurd (List.cons.inj same).1 (Numeral.ne_of_head head (by decide) rfl)
  · next same => exact absurd (List.cons.inj same).1 (Numeral.ne_of_head head (by decide) rfl)
  · next same => exact absurd (List.cons.inj same).1 (Numeral.ne_of_head head (by decide) rfl)
  · next same => exact absurd (List.cons.inj same).1 (Numeral.ne_of_head head (by decide) rfl)
  · rfl

theorem value?_string (s : String) (fuel : ℕ) (rest : List Char) :
    value? (fuel + 1) (Content.render (some s) ++ rest) = some (.string (some s), rest) := by
  have read := string?_text s rest
  unfold Content.render quote
  rw [Option.getD_some, List.cons_append, List.cons_append, List.append_assoc]
  change (string? (s.toList.flatMap escape ++ ('"' :: rest))).map _ = _
  rw [read]
  rfl

/-- The text of the items of an array or the members of an object, up to the closing bracket. -/
def listed (depth : ℕ) (stop : Char) (items : List (List Char)) (rest : List Char) : List Char :=
  joined (',' :: newline (depth + 1)) items ++ (newline depth ++ stop :: rest)

theorem bracketed_cons (start stop : Char) (depth : ℕ) (first : List Char) (later : List (List Char)) (rest : List Char) :
    bracketed start stop depth (first :: later) ++ rest
      = start :: (newline (depth + 1) ++ listed depth stop (first :: later) rest) := by
  simp [bracketed, listed, List.append_assoc]

theorem listed_single (depth : ℕ) (stop : Char) (item rest : List Char) :
    listed depth stop [item] rest = item ++ (newline depth ++ stop :: rest) := rfl

theorem listed_cons (depth : ℕ) (stop : Char) (item next : List Char) (later : List (List Char)) (rest : List Char) :
    listed depth stop (item :: next :: later) rest
      = item ++ ',' :: (newline (depth + 1) ++ listed depth stop (next :: later) rest) := by
  simp [listed, joined, List.append_assoc]

theorem listed_head (depth : ℕ) (stop c : Char) (cs : List Char) (later : List (List Char)) (rest : List Char) :
    ∃ tail, listed depth stop ((c :: cs) :: later) rest = c :: tail := by
  cases later with
  | nil => exact ⟨_, rfl⟩
  | cons next later => exact ⟨_, rfl⟩

theorem length_bracketed (start stop : Char) (depth : ℕ) (first : List Char) (later : List (List Char)) :
    (joined (',' :: newline (depth + 1)) (first :: later)).length + 3
      ≤ (bracketed start stop depth (first :: later)).length := by
  unfold bracketed
  rw [if_neg (by simp)]
  simp [newline]
  omega

section Steps

variable {fuel : ℕ} (depth : ℕ)

theorem value?_bracket (cs : List Char) : value? (fuel + 1) ('[' :: cs) =
    match skipSpace cs with
    | ']' :: rest => some (.array [], rest)
    | rest => (items? fuel rest).map fun (items, rest) => (.array items, rest) := rfl

theorem value?_brace (cs : List Char) : value? (fuel + 1) ('\x7b' :: cs) =
    match skipSpace cs with
    | '\x7d' :: rest => some (.object [], rest)
    | rest => (members? fuel rest).map fun (members, rest) => (.object members, rest) := rfl

theorem value?_array {c : Char} (cs : List Char) (some : isSpace c = false) (notClose : c ≠ ']') :
    value? (fuel + 1) ('[' :: (newline depth ++ c :: cs))
      = (items? fuel (c :: cs)).map fun (items, rest) => (.array items, rest) := by
  rw [value?_bracket, skipSpace_newline some]
  split
  · next same =>
    cases same
    exact absurd rfl notClose
  · rfl

theorem value?_object (cs : List Char) :
    value? (fuel + 1) ('\x7b' :: (newline depth ++ '"' :: cs))
      = (members? fuel ('"' :: cs)).map fun (members, rest) => (.object members, rest) := by
  rw [value?_brace, skipSpace_newline rfl]
  rfl

theorem items?_last {v : Value} {cs : List Char} (read : value? fuel cs = some (v, newline depth ++ ']' :: rest)) :
    items? (fuel + 1) cs = some ([v], rest) := by
  unfold items?
  rw [read]
  dsimp only [Option.bind_eq_bind, Option.bind_some]
  rw [skipSpace_newline rfl]
  rfl

theorem items?_next {v : Value} {items : List Value} {cs tail : List Char}
    (read : value? fuel cs = some (v, ',' :: tail)) (later : items? fuel (skipSpace tail) = some (items, rest)) :
    items? (fuel + 1) cs = some (v :: items, rest) := by
  unfold items?
  rw [read]
  change (do
    let (items, rest) ← items? fuel (skipSpace tail)
    some (v :: items, rest)) = _
  rw [later]
  rfl

/-- What follows a key and its colon. -/
def member? (fuel : ℕ) (key : Content) (cs : List Char) : Option (List (Content × Value) × List Char) := do
  let (v, rest) ← value? fuel (skipSpace cs)
  match skipSpace rest with
  | '\x7d' :: rest => some ([(key, v)], rest)
  | ',' :: rest => do
    let (later, rest) ← members? fuel (skipSpace rest)
    some ((key, v) :: later, rest)
  | _ => none

theorem members?_quote (cs : List Char) : members? (fuel + 1) ('"' :: cs) = (do
    let (key, rest) ← string? cs
    match skipSpace rest with
    | ':' :: rest => member? fuel key rest
    | _ => none) := rfl

theorem members?_key (key : String) (cs : List Char) :
    members? (fuel + 1) (Content.render (some key) ++ ':' :: cs) = member? fuel (some key) cs := by
  have read := string?_text key (':' :: cs)
  unfold Content.render quote
  rw [Option.getD_some, List.cons_append, List.cons_append, List.append_assoc, members?_quote, List.cons_append,
    List.nil_append, read]
  rfl

theorem members?_last {key : String} {v : Value} {cs : List Char}
    (read : value? fuel (skipSpace cs) = some (v, newline depth ++ '\x7d' :: rest)) :
    members? (fuel + 1) (Content.render (some key) ++ ':' :: cs) = some ([(some key, v)], rest) := by
  rw [members?_key, member?, read]
  dsimp only [Option.bind_eq_bind, Option.bind_some]
  rw [skipSpace_newline rfl]
  rfl

theorem members?_next {key : String} {v : Value} {members : List (Content × Value)} {cs tail : List Char}
    (read : value? fuel (skipSpace cs) = some (v, ',' :: tail))
    (later : members? fuel (skipSpace tail) = some (members, rest)) :
    members? (fuel + 1) (Content.render (some key) ++ ':' :: cs) = some ((some key, v) :: members, rest) := by
  rw [members?_key, member?, read]
  change (do
    let (members, rest) ← members? fuel (skipSpace tail)
    some ((some key, v) :: members, rest)) = _
  rw [later]
  rfl

end Steps

def memberText (depth : ℕ) (key : String) (v : Value) : List Char :=
  Content.render (some key) ++ ':' :: ' ' :: v.prettyAt depth

theorem prettyItems_cons (depth : ℕ) (v : Value) (later : List Value) :
    prettyItems depth (v :: later) = v.prettyAt depth :: prettyItems depth later := rfl

theorem prettyMembers_cons (depth : ℕ) (key : String) (v : Value) (later : List (Content × Value)) :
    prettyMembers depth ((some key, v) :: later) = memberText depth key v :: prettyMembers depth later := rfl

theorem prettyAt_array (depth : ℕ) (v : Value) (later : List Value) : Value.prettyAt depth (.array (v :: later))
    = bracketed '[' ']' depth (v.prettyAt (depth + 1) :: prettyItems (depth + 1) later) := rfl

theorem prettyAt_object (depth : ℕ) (key : String) (v : Value) (later : List (Content × Value)) :
    Value.prettyAt depth (.object ((some key, v) :: later))
      = bracketed '\x7b' '\x7d' depth (memberText (depth + 1) key v :: prettyMembers (depth + 1) later) := rfl

theorem joined_cons (separator item next : List Char) (later : List (List Char)) :
    joined separator (item :: next :: later) = item ++ separator ++ joined separator (next :: later) := rfl

theorem listed_memberText (depth : ℕ) (stop : Char) (key : String) (v : Value) (later : List (List Char))
    (rest : List Char) : ∃ tail, listed depth stop (memberText (depth + 1) key v :: later) rest = '"' :: tail :=
  listed_head depth stop '"' _ later rest

/-! The reader gives the value of a text back with as much fuel as the text is long. Its steps are those of the
fuel: each bracket and each item takes one. -/

def ReadsValues (fuel : ℕ) : Prop := ∀ (v : Value) (depth : ℕ) (rest : List Char), v.Spelled →
  (v.prettyAt depth).length < fuel → Follows stops rest → value? fuel (v.prettyAt depth ++ rest) = some (v, rest)

def ReadsItems (fuel : ℕ) : Prop := ∀ (v : Value) (later : List Value) (depth : ℕ) (rest : List Char),
  SpelledItems (v :: later) →
  (joined (',' :: newline (depth + 1)) (prettyItems (depth + 1) (v :: later))).length + 1 < fuel →
  items? fuel (listed depth ']' (prettyItems (depth + 1) (v :: later)) rest) = some (v :: later, rest)

def ReadsMembers (fuel : ℕ) : Prop :=
  ∀ (key : String) (v : Value) (later : List (Content × Value)) (depth : ℕ) (rest : List Char),
  SpelledMembers ((some key, v) :: later) →
  (joined (',' :: newline (depth + 1)) (prettyMembers (depth + 1) ((some key, v) :: later))).length + 1 < fuel →
  members? fuel (listed depth '\x7d' (prettyMembers (depth + 1) ((some key, v) :: later)) rest)
    = some ((some key, v) :: later, rest)

variable {fuel : ℕ}

theorem readsValues_succ (items : ReadsItems fuel) (members : ReadsMembers fuel) : ReadsValues (fuel + 1) := by
  intro v depth rest spelled enough stop
  match v, spelled with
  | .null, _ => rfl
  | .bool true, _ => rfl
  | .bool false, _ => rfl
  | .number n, proper =>
    obtain ⟨c, cs, front, head⟩ := Numeral.Proper.exists_head proper
    have read := numeral?_render proper stop
    change value? (fuel + 1) (n.render ++ rest) = _
    rw [front, List.cons_append] at read ⊢
    rw [value?_numeral _ _ head, read]
    rfl
  | .string none, spelled => cases spelled
  | .string (some s), _ => exact value?_string s fuel rest
  | .array [], _ => rfl
  | .array (first :: later), spelled =>
    rw [prettyAt_array] at enough ⊢
    have long := length_bracketed '[' ']' depth (first.prettyAt (depth + 1)) (prettyItems (depth + 1) later)
    have read := items first later depth rest spelled (by rw [prettyItems_cons]; omega)
    rw [prettyItems_cons] at read
    obtain ⟨c, cs, front, some, notClose⟩ := prettyAt_head spelled.1 (depth + 1)
    obtain ⟨tail, head⟩ := listed_head depth ']' c cs (prettyItems (depth + 1) later) rest
    rw [bracketed_cons]
    rw [front, head] at read ⊢
    rw [value?_array _ _ some notClose, read]
    rfl
  | .object [], _ => rfl
  | .object ((none, first) :: later), ⟨noText, _⟩ => cases noText
  | .object ((some key, first) :: later), spelled =>
    rw [prettyAt_object] at enough ⊢
    have long := length_bracketed '\x7b' '\x7d' depth (memberText (depth + 1) key first)
      (prettyMembers (depth + 1) later)
    have read := members key first later depth rest spelled (by rw [prettyMembers_cons]; omega)
    rw [prettyMembers_cons] at read
    obtain ⟨tail, head⟩ := listed_memberText depth '\x7d' key first (prettyMembers (depth + 1) later) rest
    rw [bracketed_cons]
    rw [head] at read ⊢
    rw [value?_object, read]
    rfl

theorem readsItems_succ (values : ReadsValues fuel) (items : ReadsItems fuel) : ReadsItems (fuel + 1) := by
  intro v later depth rest spelled enough
  match later, spelled with
  | [], ⟨first, _⟩ =>
    change (v.prettyAt (depth + 1)).length + 1 < _ at enough
    exact items?_last depth (values v (depth + 1) _ first (by omega) (newline_follows _ _))
  | next :: later, ⟨first, others⟩ =>
    rw [prettyItems_cons, prettyItems_cons, joined_cons] at enough
    simp only [List.length_append, List.length_cons] at enough
    have read := items next later depth rest others (by rw [prettyItems_cons]; omega)
    obtain ⟨c, cs, front, some, _⟩ := prettyAt_head others.1 (depth + 1)
    obtain ⟨tail, head⟩ := listed_head depth ']' c cs (prettyItems (depth + 1) later) rest
    rw [prettyItems_cons] at read
    rw [prettyItems_cons, prettyItems_cons, listed_cons]
    refine items?_next (values v (depth + 1) _ first (by omega) (follows_cons (by simp [stops]) _)) ?_
    rw [front, head] at read ⊢
    rw [skipSpace_newline some]
    exact read

theorem readsMembers_succ (values : ReadsValues fuel) (members : ReadsMembers fuel) : ReadsMembers (fuel + 1) := by
  intro key v later depth rest spelled enough
  have length : (v.prettyAt (depth + 1)).length < (memberText (depth + 1) key v).length := by
    simp only [memberText, List.length_append, List.length_cons]
    omega
  match later, spelled with
  | [], ⟨_, first, _⟩ =>
    change (memberText (depth + 1) key v).length + 1 < _ at enough
    have read := values v (depth + 1) (newline depth ++ '\x7d' :: rest) first (by omega) (newline_follows _ _)
    rw [← skipSpace_pretty first] at read
    rw [prettyMembers_cons, show prettyMembers (depth + 1) [] = [] from rfl, listed_single, memberText,
      List.append_assoc, List.cons_append, List.cons_append]
    exact members?_last depth read
  | (none, next) :: later, ⟨_, _, noText, _⟩ => cases noText
  | (some other, next) :: later, ⟨_, first, others⟩ =>
    rw [prettyMembers_cons, prettyMembers_cons, joined_cons] at enough
    simp only [List.length_append, List.length_cons] at enough
    obtain ⟨tail, head⟩ := listed_memberText depth '\x7d' other next (prettyMembers (depth + 1) later) rest
    have rest_read := members other next later depth rest others (by rw [prettyMembers_cons]; omega)
    rw [prettyMembers_cons, head, ← skipSpace_newline rfl (depth + 1)] at rest_read
    have read := values v (depth + 1) (',' :: (newline (depth + 1) ++ '"' :: tail)) first (by omega)
      (follows_cons (by simp [stops]) _)
    rw [← skipSpace_pretty first] at read
    rw [prettyMembers_cons, prettyMembers_cons, listed_cons, head, memberText, List.append_assoc, List.cons_append,
      List.cons_append]
    exact members?_next read rest_read

theorem reads_all (fuel : ℕ) : ReadsValues fuel ∧ ReadsItems fuel ∧ ReadsMembers fuel := by
  induction fuel with
  | zero =>
    refine ⟨?_, ?_, ?_⟩
    · intro v depth rest _ enough
      omega
    · intro v later depth rest _ enough
      omega
    · intro key v later depth rest _ enough
      omega
  | succ fuel ih =>
    obtain ⟨values, items, members⟩ := ih
    exact ⟨readsValues_succ items members, readsItems_succ values items, readsMembers_succ values members⟩

/-- A value comes back from its indented text. -/
theorem read?_pretty {v : Value} (spelled : v.Spelled) : read? v.prettyText = some v := by
  have read := (reads_all ((v.prettyAt 0).length + 1)).1 v 0 [] spelled (Nat.lt_succ_self _) (follows_nil _)
  have same := skipSpace_pretty spelled 0 []
  rw [List.append_nil] at read same
  unfold read? Value.prettyText
  simp only [String.toList_ofList]
  rw [same, read]
  rfl

end Toolpath.Json

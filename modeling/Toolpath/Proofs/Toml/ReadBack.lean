import Mathlib.Data.List.Basic
import Toolpath.Proofs.Toml.Scalars

/-!
# A file of sections is read back

The text of sections is taken apart into their headers and pairs. No name is given twice, so that each pair
adds a member to its table and each header a table to the file.
-/

namespace Toolpath.Toml

open Decimal

variable {rest : List Char} {name : String} {s : Scalar}

/-- A name that is written without quotes. -/
structure IsBareName (name : String) : Prop where
  nonempty : name.toList ≠ []
  bare : ∀ c ∈ name.toList, isBare c = true

theorem isBareName_iff : IsBareName name ↔ (!name.toList.isEmpty && name.toList.all isBare) = true := by
  rw [Bool.and_eq_true, Bool.not_eq_true', List.isEmpty_eq_false_iff, List.all_eq_true]
  exact ⟨fun bare => ⟨bare.nonempty, bare.bare⟩, fun both => ⟨both.1, both.2⟩⟩

instance (name : String) : Decidable (IsBareName name) := decidable_of_iff _ isBareName_iff.symm

theorem IsBareName.exists_head (bare : IsBareName name) : ∃ c cs, name.toList = c :: cs ∧ isBare c = true := by
  cases front : name.toList with
  | nil => exact absurd front bare.nonempty
  | cons c cs => exact ⟨c, cs, rfl, bare.bare c (front ▸ List.mem_cons_self)⟩

/-- Characters with a meaning of their own are not bare. -/
theorem not_bare {c : Char} (mark : c ∈ [' ', '\t', '\n', '#', '.', '[', ']', '=', '\r', '\ufeff']) :
    isBare c = false := by
  simp only [List.mem_cons, List.not_mem_nil, or_false] at mark
  rcases mark with rfl | rfl | rfl | rfl | rfl | rfl | rfl | rfl | rfl | rfl <;> rfl

theorem ne_of_bare {c d : Char} (bare : isBare c = true)
    (mark : d ∈ [' ', '\t', '\n', '#', '.', '[', ']', '=', '\r', '\ufeff']) : c ≠ d := by
  rintro rfl
  rw [not_bare mark] at bare
  cases bare

/-! ### Statements -/

theorem skipSpace_bare (bare : IsBareName name) (rest : List Char) :
    skipSpace (name.toList ++ rest) = name.toList ++ rest := by
  obtain ⟨c, cs, front, head⟩ := bare.exists_head
  have notSpace : ¬ isSpace c = true := by
    unfold isSpace
    rw [decide_eq_false (ne_of_bare head (by simp)), decide_eq_false (ne_of_bare head (by simp))]
    decide
  rw [front, List.cons_append, skipSpace, List.dropWhile_cons_of_neg notSpace]

theorem key?_bare (bare : IsBareName name) {c : Char} {tail : List Char} (stop : ∀ d ∈ rest.head?, isBare d = false)
    (next : skipSpace rest = c :: tail) (notDot : c ≠ '.') (parts : ℕ) :
    key? (parts + 1) (name.toList ++ rest) = some ({ last := name }, c :: tail) := by
  have part : part? (name.toList ++ rest) = some (name, rest) := by
    obtain ⟨d, ds, front, _⟩ := bare.exists_head
    unfold part?
    rw [span_eq bare.bare stop, front]
    dsimp only
    rw [← front, String.ofList_toList]
  unfold key?
  rw [skipSpace_bare bare, part]
  simp only [Option.bind_eq_bind, Option.bind_some]
  rw [next]
  split
  · next same => exact absurd (List.cons.inj same).1 notDot
  · rfl

theorem statement?_header (bare : IsBareName name) (rest : List Char) :
    statement? ('[' :: (name.toList ++ ']' :: '\n' :: rest)) = some (.header { last := name }, rest) := by
  have key : key? maxDepth (name.toList ++ ']' :: '\n' :: rest) = some ({ last := name }, ']' :: '\n' :: rest) := by
    refine key?_bare bare ?_ rfl (by decide) 78
    rintro d ⟨⟩
    rfl
  obtain ⟨c, cs, front, head⟩ := bare.exists_head
  rw [front, List.cons_append] at key ⊢
  unfold statement?
  split
  · next same => exact absurd (List.cons.inj (List.cons.inj same).2).1 (ne_of_bare head (by simp))
  · next same =>
    obtain rfl := (List.cons.inj same).2
    rw [key]
    rfl
  · next notHeader => exact absurd rfl (notHeader _)

theorem statement?_entry (bare : IsBareName name) (spelled : s.Spelled) (rest : List Char) :
    statement? (renderEntry (name, s) ++ rest) = some (.pair { last := name } (.scalar s), rest) := by
  have text : renderEntry (name, s) ++ rest = name.toList ++ ' ' :: '=' :: ' ' :: (s.render ++ '\n' :: rest) := by
    simp [renderEntry]
  have key : key? maxDepth (name.toList ++ ' ' :: '=' :: ' ' :: (s.render ++ '\n' :: rest))
      = some ({ last := name }, '=' :: ' ' :: (s.render ++ '\n' :: rest)) := by
    refine key?_bare bare ?_ rfl (by decide) 78
    rintro d ⟨⟩
    rfl
  have front : skipSpace (' ' :: (s.render ++ '\n' :: rest)) = s.render ++ '\n' :: rest := by
    obtain ⟨c, cs, front, notOpener⟩ := scalar_head spelled
    have notSpace : ¬ isSpace c = true := by
      intro space
      have either : c = ' ' ∨ c = '\t' := by simpa [isSpace] using space
      rcases either with rfl | rfl
      · exact notOpener (by simp [openers])
      · exact notOpener (by simp [openers])
    rw [front, List.cons_append]
    change skipSpace (c :: _) = _
    rw [skipSpace, List.dropWhile_cons_of_neg notSpace]
  have value := value?_scalar spelled (follows_cons (by simp [stops]) rest : Follows stops ('\n' :: rest))
    (' ' :: (s.render ++ '\n' :: rest)).length maxDepth
  obtain ⟨c, cs, name_eq, head⟩ := bare.exists_head
  rw [text]
  rw [name_eq, List.cons_append] at key ⊢
  unfold statement?
  split
  · next same => exact absurd (List.cons.inj same).1 (ne_of_bare head (by simp))
  · next same => exact absurd (List.cons.inj same).1 (ne_of_bare head (by simp))
  · rw [key]
    simp only [Option.bind_eq_bind, Option.bind_some]
    rw [front, value]
    rfl

theorem skipFiller_mark {c : Char} (mark : c = '[' ∨ isBare c = true) (cs : List Char) :
    skipFiller false (c :: cs) = c :: cs := by
  have differs : ∀ d ∈ [' ', '\t', '\n', '#'], c ≠ d := by
    intro d filler
    simp only [List.mem_cons, List.not_mem_nil, or_false] at filler
    rcases mark with rfl | bare
    · rcases filler with rfl | rfl | rfl | rfl <;> decide
    · refine ne_of_bare bare ?_
      rcases filler with rfl | rfl | rfl | rfl <;> simp
  unfold skipFiller isSpace
  rw [decide_eq_false (differs ' ' (by simp)), decide_eq_false (differs '\t' (by simp)),
    decide_eq_false (differs '\n' (by simp)), if_neg (by decide), if_neg (differs '#' (by simp))]

theorem statements?_step {fuel : ℕ} {c : Char} {cs : List Char} {first : Statement} {later : List Statement}
    (mark : c = '[' ∨ isBare c = true) (here : statement? (c :: cs) = some (first, rest))
    (next : statements? fuel rest = some later) : statements? (fuel + 1) (c :: cs) = some (first :: later) := by
  unfold statements?
  rw [skipFiller_mark mark]
  dsimp only
  rw [here]
  change (do
    let later ← statements? fuel rest
    some (first :: later)) = _
  rw [next]
  rfl

theorem statements?_blank (fuel : ℕ) (cs : List Char) :
    statements? (fuel + 1) ('\n' :: cs) = statements? (fuel + 1) cs := rfl

/-- The statement of an entry. -/
def pairOf (entry : String × Scalar) : Statement := .pair { last := entry.1 } (.scalar entry.2)

/-- The statements of sections: a header for each one, and its entries below. -/
def statementsOf (sections : List (String × List (String × Scalar))) : List Statement :=
  sections.flatMap fun (name, entries) => .header { last := name } :: entries.map pairOf

/-- Names without quotes, and scalars with a text. -/
def IsPlainEntry (entry : String × Scalar) : Prop := IsBareName entry.1 ∧ entry.2.Spelled

theorem statements?_entries {entries : List (String × Scalar)} {fuel : ℕ} {later : List Statement}
    (plain : ∀ e ∈ entries, IsPlainEntry e) (next : statements? fuel rest = some later) :
    statements? (fuel + entries.length) (entries.flatMap renderEntry ++ rest)
      = some (entries.map pairOf ++ later) := by
  induction entries with
  | nil => exact next
  | cons e entries ih =>
    obtain ⟨bare, spelled⟩ := plain e List.mem_cons_self
    have read := statement?_entry bare spelled (entries.flatMap renderEntry ++ rest)
    obtain ⟨c, cs, front, head⟩ := bare.exists_head
    have text : ∃ tail, renderEntry e = c :: tail := by
      unfold renderEntry
      rw [front]
      exact ⟨_, rfl⟩
    obtain ⟨tail, text⟩ := text
    change statement? (renderEntry e ++ _) = _ at read
    rw [List.flatMap_cons, List.append_assoc, List.length_cons, ← Nat.add_assoc]
    rw [text, List.cons_append] at read ⊢
    exact statements?_step (Or.inr head) read (ih fun d member => plain d (List.mem_cons_of_mem e member))

structure IsPlainSection (s : String × List (String × Scalar)) : Prop where
  name : IsBareName s.1
  entries : ∀ e ∈ s.2, IsPlainEntry e

theorem statements?_section {name : String} {entries : List (String × Scalar)} {fuel : ℕ} {later : List Statement}
    (plain : IsPlainSection (name, entries)) (next : statements? fuel rest = some later) :
    statements? (fuel + entries.length + 1) (renderSection name entries ++ rest)
      = some (.header { last := name } :: entries.map pairOf ++ later) := by
  have text : renderSection name entries ++ rest
      = '[' :: (name.toList ++ ']' :: '\n' :: (entries.flatMap renderEntry ++ rest)) := by
    simp [renderSection]
  rw [text]
  exact statements?_step (Or.inl rfl) (statement?_header plain.name _) (statements?_entries plain.entries next)

theorem statements?_sections {sections : List (String × List (String × Scalar))}
    (plain : ∀ s ∈ sections, IsPlainSection s) (fuel : ℕ) :
    statements? (fuel + (statementsOf sections).length + 1) (renderSections sections) = some (statementsOf sections) := by
  induction sections with
  | nil => rfl
  | cons s later ih =>
    obtain ⟨name, entries⟩ := s
    have first := plain (name, entries) List.mem_cons_self
    have next := ih fun t member => plain t (List.mem_cons_of_mem _ member)
    have count : fuel + (statementsOf ((name, entries) :: later)).length + 1
        = fuel + (statementsOf later).length + 1 + entries.length + 1 := by
      simp [statementsOf]
      omega
    rw [count]
    cases later with
    | nil =>
      have last : statements? (fuel + 1) [] = some [] := rfl
      have read := statements?_section first last
      rw [List.append_nil, List.append_nil] at read
      simpa [statementsOf, renderSections] using read
    | cons t later =>
      change statements? _ (renderSection name entries ++ '\n' :: renderSections (t :: later)) = _
      rw [← statements?_blank] at next
      exact statements?_section first next

theorem length_le_renderEntry (entries : List (String × Scalar)) :
    entries.length ≤ (entries.flatMap renderEntry).length := by
  induction entries with
  | nil => exact le_refl _
  | cons e entries ih =>
    rw [List.flatMap_cons, List.length_append, List.length_cons]
    simp only [renderEntry, List.length_append, List.length_cons]
    omega

theorem length_statementsOf_le (sections : List (String × List (String × Scalar))) :
    (statementsOf sections).length ≤ (renderSections sections).length := by
  induction sections with
  | nil => exact le_refl _
  | cons s later ih =>
    obtain ⟨name, es⟩ := s
    have split : (statementsOf ((name, es) :: later)).length = es.length + 1 + (statementsOf later).length := by
      simp [statementsOf]
      omega
    have here : es.length + 1 ≤ (renderSection name es).length := by
      have := length_le_renderEntry es
      simp only [renderSection, List.cons_append, List.length_cons, List.length_append]
      omega
    rw [split]
    cases later with
    | nil =>
      change _ ≤ (renderSection name es).length
      simpa [statementsOf] using here
    | cons t later =>
      change _ ≤ (renderSection name es ++ '\n' :: renderSections (t :: later)).length
      rw [List.length_append, List.length_cons]
      omega

/-! ### Tables -/

def assignmentOf (entry : String × Scalar) : Key × Value := ({ last := entry.1 }, .scalar entry.2)

def sectionOf (s : String × List (String × Scalar)) : Section := ⟨{ last := s.1 }, false, s.2.map assignmentOf⟩

def memberOf (entry : String × Scalar) : String × Value := (entry.1, .scalar entry.2)

def tableMemberOf (s : String × List (String × Scalar)) : String × Value := (s.1, .table .header (s.2.map memberOf))

theorem cons_pairs (entries : List (String × Scalar)) (l : Layout) :
    (entries.map pairOf).foldr Layout.cons l = { l with top := entries.map assignmentOf ++ l.top } := by
  induction entries with
  | nil => rfl
  | cons e entries ih =>
    rw [List.map_cons, List.foldr_cons, ih]
    rfl

theorem ofStatements_sections (sections : List (String × List (String × Scalar))) :
    Layout.ofStatements (statementsOf sections) = ⟨[], sections.map sectionOf⟩ := by
  induction sections with
  | nil => rfl
  | cons s later ih =>
    have split : statementsOf (s :: later) = .header { last := s.1 } :: (s.2.map pairOf ++ statementsOf later) := rfl
    unfold Layout.ofStatements at ih ⊢
    rw [split, List.foldr_cons, List.foldr_append, ih, cons_pairs]
    simp [Layout.cons, sectionOf]

theorem put_absent {key : String} {v : Value} {ms : Members} (absent : key ∉ ms.map Prod.fst) :
    ms.put key v = ms ++ [(key, v)] := by
  induction ms with
  | nil => rfl
  | cons m ms ih =>
    rw [List.map_cons, List.mem_cons, not_or] at absent
    obtain ⟨name, w⟩ := m
    rw [Members.put, if_neg (Ne.symm absent.1), ih absent.2, List.cons_append]

theorem lookup_absent {key : String} {ms : Members} (absent : key ∉ ms.map Prod.fst) : ms.lookup key = none := by
  rw [List.lookup_eq_none_iff]
  intro m member
  rw [bne_iff_ne]
  rintro rfl
  exact absent (List.mem_map_of_mem member)

theorem assignAll_entries (entries : List (String × Scalar)) (ms : Members)
    (distinct : ((ms ++ entries.map memberOf).map Prod.fst).Nodup) :
    assignAll (entries.map assignmentOf) ms = some (ms ++ entries.map memberOf) := by
  induction entries generalizing ms with
  | nil =>
    rw [List.map_nil, List.map_nil, List.append_nil]
    rfl
  | cons e entries ih =>
    rw [List.map_cons, List.append_cons] at distinct
    have absent : e.1 ∉ ms.map Prod.fst := by
      rw [List.append_assoc, List.map_append, List.nodup_append] at distinct
      intro member
      exact distinct.2.2 _ member _ List.mem_cons_self rfl
    have here : assign (.scalar e.2) e.1 [] ms = some (ms ++ [memberOf e]) := by
      rw [assign, lookup_absent absent, put_absent absent]
      rfl
    have next := ih (ms ++ [memberOf e]) distinct
    rw [List.map_cons, List.map_cons, List.append_cons]
    unfold assignAll at next ⊢
    rw [List.foldlM_cons]
    change (assign (.scalar e.2) e.1 [] ms >>= _) = _
    rw [here]
    exact next

theorem add?_section {s : String × List (String × Scalar)} {ms : Members} (absent : s.1 ∉ ms.map Prod.fst)
    (distinct : (s.2.map Prod.fst).Nodup) : Section.add? ms (sectionOf s) = some (ms ++ [tableMemberOf s]) := by
  have pairs : assignAll (s.2.map assignmentOf) [] = some (s.2.map memberOf) := by
    refine assignAll_entries s.2 [] ?_
    rw [List.nil_append, List.map_map]
    exact distinct
  change place (tableOf (s.2.map assignmentOf)) s.1 [] ms = _
  rw [place, lookup_absent absent, tableOf, pairs]
  change some (ms.put s.1 _) = _
  rw [put_absent absent]
  rfl

theorem addAll_sections (sections : List (String × List (String × Scalar))) (ms : Members)
    (distinct : ((ms ++ sections.map tableMemberOf).map Prod.fst).Nodup)
    (entries : ∀ s ∈ sections, (s.2.map Prod.fst).Nodup) :
    (sections.map sectionOf).foldlM Section.add? ms = some (ms ++ sections.map tableMemberOf) := by
  induction sections generalizing ms with
  | nil =>
    rw [List.map_nil, List.map_nil, List.append_nil]
    rfl
  | cons s later ih =>
    rw [List.map_cons, List.append_cons] at distinct
    have absent : s.1 ∉ ms.map Prod.fst := by
      rw [List.append_assoc, List.map_append, List.nodup_append] at distinct
      intro member
      exact distinct.2.2 _ member _ List.mem_cons_self rfl
    have next := ih (ms ++ [tableMemberOf s]) distinct fun t member => entries t (List.mem_cons_of_mem s member)
    rw [List.map_cons, List.map_cons, List.append_cons, List.foldlM_cons,
      add?_section absent (entries s List.mem_cons_self)]
    exact next

theorem ofStatements_file (top : List (String × Scalar)) (sections : List (String × List (String × Scalar))) :
    Layout.ofStatements (top.map pairOf ++ statementsOf sections)
      = ⟨top.map assignmentOf, sections.map sectionOf⟩ := by
  have inSections := ofStatements_sections sections
  unfold Layout.ofStatements at inSections ⊢
  rw [List.foldr_append, inSections, cons_pairs, List.append_nil]

theorem build?_file {top : List (String × Scalar)} {sections : List (String × List (String × Scalar))}
    (distinct : (top.map Prod.fst ++ sections.map Prod.fst).Nodup)
    (entries : ∀ s ∈ sections, (s.2.map Prod.fst).Nodup) :
    (Layout.ofStatements (top.map pairOf ++ statementsOf sections)).build?
      = some (top.map memberOf ++ sections.map tableMemberOf) := by
  have assigned : assignAll (top.map assignmentOf) [] = some (top.map memberOf) := by
    refine assignAll_entries top [] ?_
    rw [List.nil_append, List.map_map]
    exact distinct.of_append_left
  have added := addAll_sections sections (top.map memberOf) (by
    rw [List.map_append, List.map_map, List.map_map]
    exact distinct) entries
  rw [ofStatements_file]
  unfold Layout.build?
  rw [assigned]
  exact added

/-! ### Files -/

/-- A text without carriage returns and byte order marks is taken as it is. -/
def IsClean (cs : List Char) : Prop := '\r' ∉ cs ∧ '\ufeff' ∉ cs

theorem isClean_append {cs ds : List Char} (first : IsClean cs) (second : IsClean ds) : IsClean (cs ++ ds) :=
  ⟨fun member => (List.mem_append.mp member).elim first.1 second.1,
    fun member => (List.mem_append.mp member).elim first.2 second.2⟩

theorem isClean_cons {c : Char} {cs : List Char} (notReturn : c ≠ '\r') (notMark : c ≠ '\ufeff') (later : IsClean cs) :
    IsClean (c :: cs) :=
  ⟨fun member => (List.mem_cons.mp member).elim (fun same => notReturn same.symm) later.1,
    fun member => (List.mem_cons.mp member).elim (fun same => notMark same.symm) later.2⟩

theorem isClean_digits {ds : List Char} (digits : ∀ c ∈ ds, c.isDigit = true) : IsClean ds := by
  constructor
  · intro member
    cases digits _ member
  · intro member
    cases digits _ member

theorem isClean_nil : IsClean [] := ⟨List.not_mem_nil, List.not_mem_nil⟩

theorem isClean_render {n : Numeral} (proper : n.Proper) : IsClean n.render := by
  have sign : IsClean (if n.negative then ['-'] else []) := by
    split
    · exact isClean_cons (by decide) (by decide) isClean_nil
    · exact isClean_nil
  have fraction : IsClean n.fractionText := by
    unfold Numeral.fractionText
    split
    · next ds given => exact isClean_cons (by decide) (by decide) (isClean_digits (proper.fraction ds given).2)
    · exact isClean_nil
  have exponent : IsClean n.exponentText := by
    unfold Numeral.exponentText
    split
    · next e _ =>
      refine isClean_cons (by decide) (by decide) (isClean_cons ?_ ?_ (isClean_digits fun c => isDigit_digitsOf))
      · split <;> decide
      · split <;> decide
    · exact isClean_nil
  rw [n.render_eq]
  exact isClean_append (isClean_append (isClean_append sign (isClean_digits proper.whole_digits)) fraction) exponent

theorem isClean_scalar (spelled : s.Spelled) : IsClean s.render := by
  match s, spelled with
  | .integer n, _ => exact isClean_render (proper_ofInt n)
  | .decimal n, ⟨proper, _⟩ => exact isClean_render proper
  | .infinity true, _ => exact ⟨by decide, by decide⟩
  | .infinity false, _ => exact ⟨by decide, by decide⟩
  | .notANumber, _ => exact ⟨by decide, by decide⟩
  | .boolean true, _ => exact ⟨by decide, by decide⟩
  | .boolean false, _ => exact ⟨by decide, by decide⟩

theorem isClean_name (bare : IsBareName name) : IsClean name.toList := by
  constructor
  · intro member
    exact ne_of_bare (bare.bare _ member) (by simp) rfl
  · intro member
    exact ne_of_bare (bare.bare _ member) (by simp) rfl

theorem isClean_entries {entries : List (String × Scalar)} (plain : ∀ e ∈ entries, IsPlainEntry e) :
    IsClean (entries.flatMap renderEntry) := by
  induction entries with
  | nil => exact isClean_nil
  | cons e entries ih =>
    obtain ⟨bare, spelled⟩ := plain e List.mem_cons_self
    have scalar := isClean_append (isClean_scalar spelled) (isClean_cons (c := '\n') (by decide) (by decide) isClean_nil)
    rw [List.flatMap_cons]
    refine isClean_append ?_ (ih fun d member => plain d (List.mem_cons_of_mem e member))
    unfold renderEntry
    rw [List.append_assoc]
    refine isClean_append (isClean_name bare) ?_
    exact isClean_cons (by decide) (by decide) (isClean_cons (by decide) (by decide)
      (isClean_cons (by decide) (by decide) scalar))

theorem isClean_sections {sections : List (String × List (String × Scalar))} (plain : ∀ s ∈ sections, IsPlainSection s) :
    IsClean (renderSections sections) := by
  induction sections with
  | nil => exact isClean_nil
  | cons s later ih =>
    obtain ⟨name, entries⟩ := s
    have first := plain (name, entries) List.mem_cons_self
    have next := ih fun t member => plain t (List.mem_cons_of_mem _ member)
    have here : IsClean (renderSection name entries) := by
      unfold renderSection
      rw [List.cons_append]
      exact isClean_cons (by decide) (by decide) (isClean_append (isClean_name first.name)
        (isClean_cons (by decide) (by decide) (isClean_cons (by decide) (by decide) (isClean_entries first.entries))))
    cases later with
    | nil => exact here
    | cons t later => exact isClean_append here (isClean_cons (by decide) (by decide) next)

theorem plainLineEnds_eq {cs : List Char} (clean : '\r' ∉ cs) : plainLineEnds cs = cs := by
  induction cs with
  | nil => rfl
  | cons c cs ih =>
    rw [List.mem_cons, not_or] at clean
    unfold plainLineEnds
    split
    · next same => cases same
    · next same => exact absurd (List.cons.inj same).1.symm clean.1
    · next same =>
      obtain ⟨rfl, rfl⟩ := List.cons.inj same
      rw [ih clean.2]

theorem skipMark_eq {cs : List Char} (clean : '\ufeff' ∉ cs) : skipMark cs = cs := by
  unfold skipMark
  split
  · exact absurd List.mem_cons_self clean
  · rfl

/-- A file of entries and sections with names of their own is read as a table of them. -/
theorem read?_file {top : List (String × Scalar)} {sections : List (String × List (String × Scalar))}
    (plainTop : ∀ e ∈ top, IsPlainEntry e) (plain : ∀ s ∈ sections, IsPlainSection s)
    (distinct : (top.map Prod.fst ++ sections.map Prod.fst).Nodup)
    (entries : ∀ s ∈ sections, (s.2.map Prod.fst).Nodup) :
    read? (String.ofList (top.flatMap renderEntry ++ renderSections sections))
      = some (.table .header (top.map memberOf ++ sections.map tableMemberOf)) := by
  have clean := isClean_append (isClean_entries plainTop) (isClean_sections plain)
  have topCount := length_le_renderEntry top
  have count := length_statementsOf_le sections
  obtain ⟨fuel, enough⟩ : ∃ fuel, (top.flatMap renderEntry ++ renderSections sections).length + 1
      = fuel + (statementsOf sections).length + 1 + top.length := by
    rw [List.length_append]
    exact ⟨(top.flatMap renderEntry).length - top.length
      + ((renderSections sections).length - (statementsOf sections).length), by omega⟩
  have statements := statements?_entries plainTop (statements?_sections plain fuel)
  unfold read?
  rw [String.toList_ofList, skipMark_eq clean.2, plainLineEnds_eq clean.1]
  dsimp only
  rw [enough, statements]
  change (do
    let members ← (Layout.ofStatements (top.map pairOf ++ statementsOf sections)).build?
    some (Value.table .header members)) = _
  rw [build?_file distinct entries]
  rfl

end Toolpath.Toml

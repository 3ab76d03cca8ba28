import Mathlib.Data.List.TakeWhile
import Toolpath.Program.Comment
import Toolpath.Proofs.Text.Blanks

/-!
# Laws of comments

A word written in front of a line is in front of what the line says, whatever comments the line has.
-/

namespace Toolpath.Program

def Unparenthesized (cs : List Char) : Prop := ∀ c ∈ cs, c ≠ '(' ∧ c ≠ ')'

theorem foldr_consBlock_append {cs : List Char} (plain : Unparenthesized cs) (blocks : Blocks) :
    cs.foldr consBlock blocks = (cs ++ blocks.1, blocks.2) := by
  induction cs with
  | nil => rfl
  | cons c cs ih =>
    obtain ⟨opens, closes⟩ := plain c List.mem_cons_self
    have later : Unparenthesized cs := fun d member => plain d (List.mem_cons_of_mem c member)
    rw [List.foldr_cons, ih later]
    simp [consBlock, opens, closes]

variable {plain : List Char}

theorem blankBlocks_append (bare : Unparenthesized plain) (cs : List Char) :
    blankBlocks (plain ++ cs) = plain ++ blankBlocks cs := by
  rw [blankBlocks, List.foldr_append, foldr_consBlock_append bare]
  rfl

theorem blankRounds_append (bare : Unparenthesized plain) (fuel : Nat) (cs : List Char) :
    blankRounds fuel (plain ++ cs) = plain ++ blankRounds fuel cs := by
  induction fuel generalizing cs with
  | zero => rfl
  | succ fuel ih =>
    simp only [blankRounds, blankBlocks_append bare, List.append_cancel_left_eq]
    split
    · rfl
    · exact ih _

theorem not_open_of_mem (bare : Unparenthesized plain) : '(' ∉ plain := fun member => (bare _ member).1 rfl

theorem withoutBlocks_append (bare : Unparenthesized plain) (cs : List Char) :
    withoutBlocks (plain ++ cs) = plain ++ withoutBlocks cs := by
  have rounds : (plain ++ cs).count '(' = cs.count '(' := by
    rw [List.count_append, List.count_eq_zero_of_not_mem (not_open_of_mem bare), Nat.zero_add]
  unfold withoutBlocks
  rw [rounds, blankRounds_append bare, List.takeWhile_append_of_pos]
  intro c member
  simpa using (bare c member).1

/-- A word that no comment can begin or end in. -/
structure Solid (word : List Char) : Prop where
  inhabited : word ≠ []
  unblank : ∀ c ∈ word, Text.isBlank c = false
  code : ∀ c ∈ word, c ≠ ';'
  bare : Unparenthesized word

def isSolid (c : Char) : Bool := !Text.isBlank c && c ≠ ';' && c ≠ '(' && c ≠ ')'

theorem solid_of_all {word : List Char} (inhabited : word ≠ []) (all : word.all isSolid = true) : Solid word := by
  have each : ∀ c ∈ word, ((Text.isBlank c = false ∧ c ≠ ';') ∧ c ≠ '(') ∧ c ≠ ')' := by
    simpa [isSolid] using all
  refine ⟨inhabited, ?_, ?_, ?_⟩
  · intro c member
    exact (each c member).1.1.1
  · intro c member
    exact (each c member).1.1.2
  · intro c member
    exact ⟨(each c member).1.2, (each c member).2⟩

variable {word : List Char}

theorem beforeSemicolon_append (solid : Solid word) (line : List Char) :
    beforeSemicolon (word ++ ' ' :: line) = word ++ ' ' :: beforeSemicolon line := by
  have kept : ∀ c ∈ word, (decide (c ≠ ';')) = true := fun c member => by simpa using solid.code c member
  unfold beforeSemicolon
  rw [List.takeWhile_append_of_pos kept, List.takeWhile_cons_of_pos (by decide)]

theorem trim_append (solid : Solid word) {cs : List Char} (inhabited : Text.trim cs ≠ []) :
    ∃ blanks, (∀ c ∈ blanks, Text.isBlank c = true) ∧
      Text.trim (word ++ ' ' :: cs) = word ++ ' ' :: (blanks ++ Text.trim cs) := by
  have space : Text.isBlank ' ' = true := by decide
  have single : ∀ c ∈ [' '], Text.isBlank c = true := by simpa using space
  have within : Text.trim (' ' :: cs) = Text.trim cs := Text.trim_blanks_append single cs
  have blank : ∀ c ∈ cs.takeWhile Text.isBlank, Text.isBlank c = true := fun _ member =>
    List.mem_takeWhile_imp member
  refine ⟨cs.takeWhile Text.isBlank, blank, ?_⟩
  cases word with
  | nil => exact absurd rfl solid.inhabited
  | cons c word =>
    have first : Text.isBlank c = false := solid.unblank c List.mem_cons_self
    rw [Text.trim_word_append first word (by rwa [within]), within, List.takeWhile_cons_of_pos space]
    simp only [List.append_assoc, List.cons_append]

theorem unparenthesized_append (solid : Solid word) {blanks : List Char}
    (blank : ∀ c ∈ blanks, Text.isBlank c = true) : Unparenthesized (word ++ ' ' :: blanks) := by
  intro c member
  rcases List.mem_append.mp member with inside | member
  · exact solid.bare c inside
  · have white : Text.isBlank c = true := by
      rcases List.mem_cons.mp member with rfl | later
      · decide
      · exact blank c later
    refine ⟨?_, ?_⟩
    · rintro rfl
      exact absurd white (by decide)
    · rintro rfl
      exact absurd white (by decide)

theorem isOneBlock_append (solid : Solid word) (cs : List Char) : isOneBlock (word ++ cs) = false := by
  cases word with
  | nil => exact absurd rfl solid.inhabited
  | cons c word =>
    have other : c ≠ '(' := (solid.bare c List.mem_cons_self).1
    simp [isOneBlock, other]

theorem interpretable?_eq_some_iff {line code : List Char} :
    interpretable? line = some code ↔
      Text.trim (beforeSemicolon line) ≠ [] ∧ isOneBlock (Text.trim (beforeSemicolon line)) = false ∧
        if '(' ∈ Text.trim (beforeSemicolon line) then
          code ≠ [] ∧ Text.trim (withoutBlocks (Text.trim (beforeSemicolon line))) = code
        else Text.trim (beforeSemicolon line) = code := by
  unfold interpretable?
  generalize Text.trim (beforeSemicolon line) = read
  by_cases empty : read = []
  · simp [empty]
  · cases block : isOneBlock read with
    | true => simp [empty, block]
    | false =>
      by_cases opens : '(' ∈ read
      · by_cases nothing : Text.trim (withoutBlocks read) = []
        · simp [empty, block, opens, nothing]
        · simp [empty, block, opens, nothing]
          intro same
          rwa [← same]
      · simp [empty, block, opens]

/-- What a line says with a word in front of it. -/
theorem interpretable?_append (solid : Solid word) {line code : List Char} (reads : interpretable? line = some code) :
    ∃ blanks, (∀ c ∈ blanks, Text.isBlank c = true) ∧
      interpretable? (word ++ ' ' :: line) = some (word ++ ' ' :: (blanks ++ code)) := by
  obtain ⟨inhabited, _, content⟩ := interpretable?_eq_some_iff.mp reads
  obtain ⟨lead, leading, read⟩ := trim_append solid inhabited
  rw [← beforeSemicolon_append solid] at read
  have begun : ∀ cs : List Char, word ++ cs ≠ [] := fun cs => List.append_ne_nil_of_left_ne_nil solid.inhabited cs
  have bare := unparenthesized_append solid leading
  have opensAlike : '(' ∈ word ++ ' ' :: (lead ++ Text.trim (beforeSemicolon line)) ↔
      '(' ∈ Text.trim (beforeSemicolon line) := by
    have outside := not_open_of_mem bare
    rw [← List.cons_append, ← List.append_assoc, List.mem_append, or_iff_right outside]
  by_cases opens : '(' ∈ Text.trim (beforeSemicolon line)
  · rw [if_pos opens] at content
    obtain ⟨more, trimmed⟩ := content
    -- The comments are taken off behind the word and the blanks after it, and more blanks may follow these.
    have rest := withoutBlocks_append bare (Text.trim (beforeSemicolon line))
    rw [List.append_assoc, List.append_assoc, List.cons_append, List.cons_append] at rest
    have behind := Text.trim_blanks_append leading (withoutBlocks (Text.trim (beforeSemicolon line)))
    rw [trimmed] at behind
    obtain ⟨blanks, blank, whole⟩ := trim_append solid (behind.trans_ne more)
    refine ⟨blanks, blank, interpretable?_eq_some_iff.mpr ?_⟩
    rw [read, if_pos (opensAlike.mpr opens), rest, whole, behind]
    exact ⟨begun _, isOneBlock_append solid _, begun _, rfl⟩
  · rw [if_neg opens] at content
    refine ⟨lead, leading, interpretable?_eq_some_iff.mpr ?_⟩
    rw [read, if_neg (mt opensAlike.mp opens), content]
    exact ⟨begun _, isOneBlock_append solid _, rfl⟩

theorem words_append (solid : Solid word) {blanks : List Char} (blank : ∀ c ∈ blanks, Text.isBlank c = true)
    (code : List Char) : Text.words (word ++ ' ' :: (blanks ++ code)) = word :: Text.words code := by
  rw [Text.words_word_append solid.inhabited solid.unblank (by decide), Text.words_blanks_append blank]

end Toolpath.Program

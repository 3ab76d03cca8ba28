import Mathlib.Data.List.DropRight
import Toolpath.Text.Blank

/-!
# Laws of blanks

Blanks at the ends of a text are trimmed, and blanks between words only keep the words apart.
-/

namespace Toolpath.Text

theorem trimEnd_append_blank (cs : List Char) {c : Char} (blank : isBlank c = true) :
    trimEnd (cs ++ [c]) = trimEnd cs := by
  simp [trimEnd, blank]

theorem trim_append_blank (cs : List Char) {c : Char} (blank : isBlank c = true) :
    trim (cs ++ [c]) = trim cs := by
  unfold trim
  rw [List.dropWhile_append]
  split
  · next nothing =>
    have left : cs.dropWhile isBlank = [] := by simpa using nothing
    simp [left, blank]
  · exact trimEnd_append_blank _ blank

theorem trim_blanks_append {blanks : List Char} (blank : ∀ c ∈ blanks, isBlank c = true) (cs : List Char) :
    trim (blanks ++ cs) = trim cs := by
  rw [trim, List.dropWhile_append_of_pos blank]
  rfl

theorem trimEnd_append (cs : List Char) {ds : List Char} (inhabited : trimEnd ds ≠ []) :
    trimEnd (cs ++ ds) = cs ++ trimEnd ds := by
  unfold trimEnd at inhabited ⊢
  have left : (ds.reverse.dropWhile isBlank).isEmpty = false := by
    cases reversed : ds.reverse.dropWhile isBlank with
    | nil => simp [reversed] at inhabited
    | cons d ds => rfl
  rw [List.reverse_append, List.dropWhile_append, left]
  simp

/-- Nothing is trimmed off in front of a word. -/
theorem trim_word_append {c : Char} (solid : isBlank c = false) (word : List Char) {cs : List Char}
    (inhabited : trim cs ≠ []) :
    trim (c :: word ++ cs) = c :: word ++ cs.takeWhile isBlank ++ trim cs := by
  have started : (c :: word ++ cs).dropWhile isBlank = c :: word ++ cs := by
    rw [List.cons_append, List.dropWhile_cons_of_neg (by simp [solid])]
  have split : c :: word ++ cs = c :: word ++ cs.takeWhile isBlank ++ cs.dropWhile isBlank := by
    rw [List.append_assoc, List.takeWhile_append_dropWhile]
  rw [trim, started, split, trimEnd_append _ inhabited]
  rfl

/-- Nothing is left to trim. -/
theorem trim_trim (cs : List Char) : trim (trim cs) = trim cs := by
  have ended : trim cs = (cs.dropWhile isBlank).rdropWhile isBlank := rfl
  have started : (trim cs).dropWhile isBlank = trim cs := by
    rw [List.dropWhile_eq_self_iff, ended]
    intro inhabited
    have start := List.rdropWhile_prefix isBlank (cs.dropWhile isBlank)
    have front := List.dropWhile_eq_self_iff.mp (List.dropWhile_idempotent isBlank cs)
    rw [start.getElem inhabited]
    exact front (inhabited.trans_le start.length_le)
  rw [trim, started, ended]
  exact List.rdropWhile_idempotent isBlank _

/-! ### Words -/

theorem words_cons_blank {c : Char} (blank : isBlank c = true) (cs : List Char) : words (c :: cs) = words cs := by
  simp only [words, splitWord, blank, ↓reduceIte]
  rfl

theorem words_blanks_append {blanks : List Char} (blank : ∀ c ∈ blanks, isBlank c = true) (cs : List Char) :
    words (blanks ++ cs) = words cs := by
  induction blanks with
  | nil => rfl
  | cons c blanks ih =>
    rw [List.cons_append, words_cons_blank (blank c List.mem_cons_self)]
    exact ih fun d member => blank d (List.mem_cons_of_mem c member)

theorem splitWord_append {word : List Char} (solid : ∀ c ∈ word, isBlank c = false) {c : Char}
    (blank : isBlank c = true) (cs : List Char) : splitWord (word ++ c :: cs) = (word, words cs) := by
  induction word with
  | nil =>
    simp only [List.nil_append, splitWord, blank, ↓reduceIte]
    rfl
  | cons d word ih =>
    have first : isBlank d = false := solid d List.mem_cons_self
    have later := ih fun e member => solid e (List.mem_cons_of_mem d member)
    simp only [List.cons_append, splitWord, later, first, Bool.false_eq_true, ↓reduceIte]

theorem words_word_append {word : List Char} (inhabited : word ≠ []) (solid : ∀ c ∈ word, isBlank c = false)
    {c : Char} (blank : isBlank c = true) (cs : List Char) : words (word ++ c :: cs) = word :: words cs := by
  have first := splitWord_append solid blank cs
  unfold words at first ⊢
  rw [first]
  simp [consWord, inhabited]

end Toolpath.Text

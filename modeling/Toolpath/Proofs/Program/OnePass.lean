import Toolpath.Proofs.Program.Rounds
import Toolpath.Proofs.Program.Silence

/-!
# Comments taken off in one pass

A line can be read once, from left to right, with a stack of the parentheses that are open. `Scan.read` reads one
character so, and `onePass?` takes the comments off a line in this way. `Stripped` says what is left of a text without
any reading: blocks become spaces, and a parenthesis that nothing closes ends the text. All three agree, and the two
cases that `interpretable?` treats by themselves are no exceptions.
-/

namespace Toolpath.Program

/-- The stack of a reading. -/
structure Scan where
  /-- The text behind the innermost open parenthesis, its last character first. -/
  text : List Char := []
  /-- The texts in front of the open parentheses, the innermost first. -/
  outer : List (List Char) := []

namespace Scan

/-- A closing parenthesis belongs to the last one that is still open, and the two become a space with all that is
between them. If none is open, it is kept. -/
def read (s : Scan) (c : Char) : Scan :=
  if c = '(' then ⟨[], s.text :: s.outer⟩
  else if c = ')' then
    match s.outer with
    | [] => ⟨c :: s.text, []⟩
    | before :: outer => ⟨' ' :: before, outer⟩
  else ⟨c :: s.text, s.outer⟩

/-- The text in front of the first parenthesis that is still open, or all of it. -/
def kept (s : Scan) : List Char := (s.outer.getLast?.getD s.text).reverse

end Scan

def stripped (cs : List Char) : List Char := (cs.foldl Scan.read {}).kept

/-- What is left of a line, found in one pass. -/
def onePass? (line : List Char) : Option (List Char) :=
  let rest := Text.trim (stripped (beforeSemicolon line))
  if rest.isEmpty then none else some rest

/-- The second text is the first one with a space for every block that no other one encloses, up to a parenthesis that
nothing closes. -/
inductive Stripped : List Char → List Char → Prop where
  | nil : Stripped [] []
  | keep {c : Char} {cs ds : List Char} (plain : c ≠ '(') (later : Stripped cs ds) : Stripped (c :: cs) (c :: ds)
  | block {inner cs ds : List Char} (inside : Balanced inner) (later : Stripped cs ds) :
      Stripped ('(' :: (inner ++ ')' :: cs)) (' ' :: ds)
  | unclosed {cs : List Char} (unclosed : ∀ inner after, Balanced inner → cs ≠ inner ++ ')' :: after) :
      Stripped ('(' :: cs) []

/-! ### Reading -/

namespace Scan

theorem read_open (s : Scan) : s.read '(' = ⟨[], s.text :: s.outer⟩ := rfl

theorem read_plain {c : Char} (opens : c ≠ '(') (closes : c ≠ ')') (s : Scan) : s.read c = ⟨c :: s.text, s.outer⟩ := by
  simp [read, opens, closes]

/-- With no parenthesis open, any character is kept that does not open one. -/
theorem read_outside {c : Char} (opens : c ≠ '(') (text : List Char) : read ⟨text, []⟩ c = ⟨c :: text, []⟩ := by
  by_cases closes : c = ')'
  · subst closes
    rfl
  · exact read_plain opens closes ⟨text, []⟩

/-- Balanced text leaves the stack as it was. -/
theorem outer_balanced {inner : List Char} (balanced : Balanced inner) (s : Scan) :
    (inner.foldl read s).outer = s.outer := by
  induction balanced generalizing s with
  | nil => rfl
  | cons opens closes later ih => rw [List.foldl_cons, ih, read_plain opens closes]
  | @block inner cs inside later inner_ih later_ih =>
    have pushed := inner_ih (s.read '(')
    rw [read_open] at pushed
    have popped : ((inner.foldl read (s.read '(')).read ')').outer = s.outer := by
      rw [read_open]
      generalize inner.foldl read ⟨[], s.text :: s.outer⟩ = t at pushed ⊢
      obtain ⟨text, outer⟩ := t
      obtain rfl : outer = s.text :: s.outer := pushed
      rfl
    rw [List.cons_append, List.foldl_cons, List.foldl_append, List.foldl_cons, later_ih, popped]

/-- A block is read like a space. -/
theorem foldl_block {inner : List Char} (balanced : Balanced inner) (after : List Char) (s : Scan) :
    ('(' :: (inner ++ ')' :: after)).foldl read s = (' ' :: after).foldl read s := by
  have inside := outer_balanced balanced ⟨[], s.text :: s.outer⟩
  rw [List.foldl_cons, List.foldl_append, List.foldl_cons, List.foldl_cons, read_open]
  congr 1
  generalize inner.foldl read ⟨[], s.text :: s.outer⟩ = t at inside ⊢
  obtain ⟨text, outer⟩ := t
  obtain rfl : outer = s.text :: s.outer := inside
  rfl

/-- Either the innermost open parenthesis is closed, or all that are open stay so. -/
theorem closes_or_stays (cs : List Char) :
    (∃ inner after, Balanced inner ∧ cs = inner ++ ')' :: after) ∨ ∀ s : Scan, s.outer <:+ (cs.foldl read s).outer := by
  induction length : cs.length using Nat.strong_induction_on generalizing cs with
  | _ n ih =>
    subst length
    cases cs with
    | nil => exact Or.inr fun s => List.suffix_refl _
    | cons c cs =>
      by_cases closes : c = ')'
      · subst closes
        exact Or.inl ⟨[], cs, .nil, rfl⟩
      by_cases opens : c = '('
      · subst opens
        rcases ih cs.length (Nat.lt_succ_self _) cs rfl with ⟨inner, after, inside, rfl⟩ | stays
        · -- The text goes on behind a whole block.
          have shorter : after.length < ('(' :: (inner ++ ')' :: after)).length := by
            simp only [List.length_cons, List.length_append]
            omega
          rcases ih after.length shorter after rfl with ⟨next, rest, balanced, rfl⟩ | stays
          · refine Or.inl ⟨'(' :: inner ++ ')' :: next, rest, .block inside balanced, ?_⟩
            simp
          · refine Or.inr fun s => ?_
            rw [foldl_block inside]
            exact stays (s.read ' ')
        · refine Or.inr fun s => ?_
          exact (List.suffix_cons _ _).trans (stays (s.read '('))
      · rcases ih cs.length (Nat.lt_succ_self _) cs rfl with ⟨inner, after, inside, rfl⟩ | stays
        · exact Or.inl ⟨c :: inner, after, .cons opens closes inside, rfl⟩
        · refine Or.inr fun s => ?_
          have later := stays (s.read c)
          rw [List.foldl_cons]
          rw [read_plain opens closes] at later ⊢
          exact later

end Scan

/-! ### What is left of a text -/

/-- The reading finds what is left of a text, whatever it has read before. -/
theorem Stripped.kept_eq {cs ds : List Char} (left : Stripped cs ds) (text : List Char) :
    (cs.foldl Scan.read ⟨text, []⟩).kept = text.reverse ++ ds := by
  induction left generalizing text with
  | nil => simp [Scan.kept]
  | @keep c cs ds plain later ih =>
    rw [List.foldl_cons, Scan.read_outside plain, ih]
    simp
  | @block inner cs ds inside later ih =>
    rw [Scan.foldl_block inside, List.foldl_cons, Scan.read_outside (by decide), ih]
    simp
  | @unclosed cs unclosed =>
    have stays := (Scan.closes_or_stays cs).resolve_left fun ⟨inner, after, inside, same⟩ =>
      unclosed inner after inside same
    obtain ⟨deeper, outer⟩ := stays ⟨[], [text]⟩
    rw [List.foldl_cons, Scan.read_open, Scan.kept, ← outer]
    simp

theorem Stripped.eq {cs ds : List Char} (left : Stripped cs ds) : stripped cs = ds := left.kept_eq []

theorem exists_stripped (cs : List Char) : ∃ ds, Stripped cs ds := by
  induction length : cs.length using Nat.strong_induction_on generalizing cs with
  | _ n ih =>
    subst length
    cases cs with
    | nil => exact ⟨[], .nil⟩
    | cons c cs =>
      by_cases opens : c = '('
      · subst opens
        by_cases closed : ∃ inner after, Balanced inner ∧ cs = inner ++ ')' :: after
        · obtain ⟨inner, after, inside, rfl⟩ := closed
          have shorter : after.length < ('(' :: (inner ++ ')' :: after)).length := by
            simp only [List.length_cons, List.length_append]
            omega
          obtain ⟨ds, later⟩ := ih after.length shorter after rfl
          exact ⟨' ' :: ds, .block inside later⟩
        · exact ⟨[], .unclosed fun inner after inside same => closed ⟨inner, after, inside, same⟩⟩
      · obtain ⟨ds, later⟩ := ih cs.length (Nat.lt_succ_self _) cs rfl
        exact ⟨c :: ds, .keep opens later⟩

theorem stripped_spec (cs : List Char) : Stripped cs (stripped cs) := by
  obtain ⟨ds, left⟩ := exists_stripped cs
  rw [left.eq]
  exact left

/-! ### Rounds and the pass -/

/-- A round does not change what is read. -/
theorem Blanked.foldl_read {cs ds : List Char} (blanked : Blanked cs ds) (s : Scan) :
    cs.foldl Scan.read s = ds.foldl Scan.read s := by
  induction blanked generalizing s with
  | nil => rfl
  | @block inner cs ds plain later ih =>
    have balanced : Balanced inner := by
      have whole := balanced_append plain .nil
      rwa [List.append_nil] at whole
    rw [Scan.foldl_block balanced, List.foldl_cons, List.foldl_cons, ih]
  | keep unblocked later ih => rw [List.foldl_cons, List.foldl_cons, ih]

theorem Settles.stripped_eq {cs ds : List Char} (settles : Settles cs ds) : stripped cs = stripped ds := by
  induction settles with
  | done same => rfl
  | @again cs ds changed later ih =>
    rw [← ih, stripped, stripped, (blanked_blankBlocks cs).foldl_read]

/-- When no closing parenthesis stands behind an opening one, nothing is left to be replaced. -/
theorem stripped_takeWhile {cs : List Char} (apart : ')' ∉ cs.dropWhile (· ≠ '(')) :
    Stripped cs (cs.takeWhile (· ≠ '(')) := by
  induction cs with
  | nil => exact .nil
  | cons c cs ih =>
    by_cases opens : c = '('
    · subst opens
      rw [List.dropWhile_cons_of_neg (by simp)] at apart
      rw [List.takeWhile_cons_of_neg (by simp)]
      refine .unclosed ?_
      rintro inner after - rfl
      exact apart (by simp)
    · rw [List.dropWhile_cons_of_pos (by simpa using opens)] at apart
      rw [List.takeWhile_cons_of_pos (by simpa using opens)]
      exact .keep opens (ih apart)

theorem withoutBlocks_eq (cs : List Char) : withoutBlocks cs = stripped cs := by
  have settles := settles_blankRounds (le_refl (cs.count '('))
  have blanked := blanked_blankBlocks (blankRounds (cs.count '(') cs)
  rw [settles.fixed] at blanked
  rw [settles.stripped_eq, (stripped_takeWhile (no_close_after_open blanked)).eq, withoutBlocks]

/-! ### Blanks around a text -/

theorem not_parenthesis_of_blank {c : Char} (blank : Text.isBlank c = true) : c ≠ '(' ∧ c ≠ ')' := by
  constructor
  · rintro rfl
    exact absurd blank (by decide)
  · rintro rfl
    exact absurd blank (by decide)

theorem stripped_blanks_append {blanks : List Char} (blank : ∀ c ∈ blanks, Text.isBlank c = true) (cs : List Char) :
    stripped (blanks ++ cs) = blanks ++ stripped cs := by
  suffices left : Stripped (blanks ++ cs) (blanks ++ stripped cs) from left.eq
  induction blanks with
  | nil => exact stripped_spec cs
  | cons c blanks ih =>
    have plain := (not_parenthesis_of_blank (blank c List.mem_cons_self)).1
    exact .keep plain (ih fun d member => blank d (List.mem_cons_of_mem c member))

/-- A blank at the end is kept, or is behind a parenthesis that nothing closes. -/
theorem trim_stripped_append (cs : List Char) {c : Char} (blank : Text.isBlank c = true) :
    Text.trim (stripped (cs ++ [c])) = Text.trim (stripped cs) := by
  obtain ⟨opens, closes⟩ := not_parenthesis_of_blank blank
  unfold stripped
  rw [List.foldl_append, List.foldl_cons, List.foldl_nil, Scan.read_plain opens closes]
  generalize cs.foldl Scan.read {} = s
  obtain ⟨text, outer⟩ := s
  cases outer with
  | nil =>
    have longer : Scan.kept ⟨c :: text, []⟩ = Scan.kept ⟨text, []⟩ ++ [c] := by simp [Scan.kept]
    rw [longer, Text.trim_append_blank _ blank]
  | cons before outer => simp [Scan.kept, List.getLast?_cons]

theorem trim_stripped_trimEnd (cs : List Char) : Text.trim (stripped (Text.trimEnd cs)) = Text.trim (stripped cs) := by
  induction cs using List.reverseRecOn with
  | nil => rfl
  | append_singleton cs c ih =>
    by_cases blank : Text.isBlank c = true
    · rw [Text.trimEnd_append_blank cs blank, trim_stripped_append cs blank, ih]
    · have solid : Text.trimEnd (cs ++ [c]) = cs ++ [c] := by simp [Text.trimEnd, blank]
      rw [solid]

theorem trim_stripped_trim (cs : List Char) : Text.trim (stripped (Text.trim cs)) = Text.trim (stripped cs) := by
  have blank : ∀ c ∈ cs.takeWhile Text.isBlank, Text.isBlank c = true := fun _ member => List.mem_takeWhile_imp member
  have lead := stripped_blanks_append blank (cs.dropWhile Text.isBlank)
  rw [List.takeWhile_append_dropWhile] at lead
  have ended : Text.trim cs = Text.trimEnd (cs.dropWhile Text.isBlank) := rfl
  rw [ended, trim_stripped_trimEnd, lead, Text.trim_blanks_append blank]

/-! ### Lines -/

theorem isOneBlock_iff {code inner : List Char} (block : code = '(' :: (inner ++ [')'])) :
    isOneBlock code = true ↔ ')' ∉ inner := by
  subst block
  simp [isOneBlock]

theorem exists_inner {code : List Char} (first : code.head? = some '(') (last : code.getLast? = some ')') :
    ∃ inner, code = '(' :: (inner ++ [')']) := by
  cases code with
  | nil => cases first
  | cons c cs =>
    obtain rfl : c = '(' := Option.some.inj first
    cases cs using List.reverseRecOn with
    | nil => simp at last
    | append_singleton inner d =>
      rw [← List.cons_append, List.getLast?_concat] at last
      obtain rfl : d = ')' := Option.some.inj last
      exact ⟨inner, rfl⟩

theorem quiet_of_no_close {inner : List Char} (unclosed : ')' ∉ inner) (depth : ℕ) :
    quiet (depth + 1) (inner ++ [')']) = true := by
  induction inner generalizing depth with
  | nil => rfl
  | cons c inner ih =>
    have closes : c ≠ ')' := fun same => unclosed (same ▸ List.mem_cons_self)
    have later : ')' ∉ inner := fun member => unclosed (List.mem_cons_of_mem c member)
    by_cases opens : c = '('
    · subst opens
      exact ih later (depth + 1)
    · simp [quiet, opens, closes, ih later depth]

theorem isOneBlock_shape {code : List Char} (block : isOneBlock code = true) :
    ∃ inner, code = '(' :: (inner ++ [')']) ∧ ')' ∉ inner := by
  have ends : code.head? = some '(' ∧ code.getLast? = some ')' := by
    unfold isOneBlock at block
    split at block
    · next cs =>
      rw [Bool.and_eq_true, decide_eq_true_eq] at block
      exact ⟨rfl, by rw [List.getLast?_cons, block.1]; rfl⟩
    · cases block
  obtain ⟨inner, shape⟩ := exists_inner ends.1 ends.2
  exact ⟨inner, shape, (isOneBlock_iff shape).mp block⟩

/-- A line that is one block leaves nothing anyway. -/
theorem trim_withoutBlocks_of_block {code : List Char} (block : isOneBlock code = true) :
    Text.trim (withoutBlocks code) = [] := by
  obtain ⟨inner, rfl, unclosed⟩ := isOneBlock_shape block
  have whole : quiet 0 ('(' :: (inner ++ [')'])) = true := quiet_of_no_close unclosed 0
  exact trim_of_blank (blank_of_quiet (quiet_blankRounds _ whole))

/-- A line without an opening parenthesis is left as it is anyway. -/
theorem withoutBlocks_of_no_open {code : List Char} (closed : '(' ∉ code) : withoutBlocks code = code := by
  have all : code.takeWhile (· ≠ '(') = code := by
    refine List.takeWhile_eq_self_iff.mpr fun c member => ?_
    have other : c ≠ '(' := fun same => closed (same ▸ member)
    simpa using other
  have nothing : code.dropWhile (· ≠ '(') = [] := by
    refine List.dropWhile_eq_nil_iff.mpr fun c member => ?_
    have other : c ≠ '(' := fun same => closed (same ▸ member)
    simpa using other
  have left : Stripped code (code.takeWhile (· ≠ '(')) := stripped_takeWhile (nothing ▸ List.not_mem_nil)
  rw [withoutBlocks_eq, left.eq, all]

theorem onePass?_eq (line : List Char) :
    onePass? line =
      let rest := Text.trim (withoutBlocks (Text.trim (beforeSemicolon line)))
      if rest.isEmpty then none else some rest := by
  rw [withoutBlocks_eq, trim_stripped_trim]
  rfl

theorem interpretable?_eq_onePass? (line : List Char) : interpretable? line = onePass? line := by
  rw [onePass?_eq]
  unfold interpretable?
  generalize read : Text.trim (beforeSemicolon line) = code
  have trimmed : Text.trim code = code := by rw [← read, Text.trim_trim]
  dsimp only
  by_cases empty : code = []
  · subst empty
    rfl
  · cases block : isOneBlock code with
    | true => simp [trim_withoutBlocks_of_block block]
    | false =>
      by_cases opens : '(' ∈ code
      · simp [empty, opens]
      · simp [empty, opens, withoutBlocks_of_no_open opens, trimmed]

example : onePass? "G1 (a (b)) X2 ) (c (d) ; (e)".toList = some "G1   X2 )".toList := by decide +kernel

/-- Taking the comments off a line, with its rounds and its two special cases, is the same as reading it once. The
reading leaves a space for each outermost block and ends at a parenthesis that nothing closes. The rounds come to an
end; a line that begins and ends with parentheses has two of them to leave out; a block that is the whole line leaves
nothing, and a line without an opening parenthesis is kept, in rounds as well. What a line says is not empty, trimmed,
and free of comments. -/
theorem comments_in_one_pass (line : List Char) :
    let code := Text.trim (beforeSemicolon line)
    interpretable? line = onePass? line ∧
      Stripped (beforeSemicolon line) (stripped (beforeSemicolon line)) ∧
      Settles code (blankRounds (code.count '(') code) ∧
      (code.head? = some '(' → code.getLast? = some ')' →
        ∃ inner, code = '(' :: (inner ++ [')']) ∧ (isOneBlock code = true ↔ ')' ∉ inner)) ∧
      (isOneBlock code = true → Text.trim (withoutBlocks code) = []) ∧
      ('(' ∉ code → withoutBlocks code = code) ∧
      ∀ rest, interpretable? line = some rest →
        rest ≠ [] ∧ Text.trim rest = rest ∧ ';' ∉ rest ∧ '(' ∉ rest := by
  intro code
  refine ⟨interpretable?_eq_onePass? line, stripped_spec _, settles_blankRounds le_rfl, ?_,
    trim_withoutBlocks_of_block, withoutBlocks_of_no_open, ?_⟩
  · intro first last
    obtain ⟨inner, shape⟩ := exists_inner first last
    exact ⟨inner, shape, isOneBlock_iff shape⟩
  · intro rest reads
    obtain ⟨inhabited, trimmed, noSemicolon, noParenthesis⟩ := clean_of_interpretable? reads
    exact ⟨inhabited, trimmed, noSemicolon, noParenthesis⟩

end Toolpath.Program

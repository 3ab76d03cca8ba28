import Toolpath.Proofs.Program.Comments

/-!
# Lines that say nothing

A line of blanks and balanced blocks in parentheses says nothing, and neither does whatever follows its
semicolon. What is left of a line without its comments has none, so that taking them off again changes nothing.
-/

namespace Toolpath.Program

/-- Every parenthesis has its partner. -/
inductive Balanced : List Char → Prop where
  | nil : Balanced []
  | cons {c : Char} {cs : List Char} (opens : c ≠ '(') (closes : c ≠ ')') (later : Balanced cs) : Balanced (c :: cs)
  | block {inner cs : List Char} (inside : Balanced inner) (later : Balanced cs) :
      Balanced ('(' :: inner ++ ')' :: cs)

theorem balanced_append {cs ds : List Char} (plain : Unparenthesized cs) (later : Balanced ds) :
    Balanced (cs ++ ds) := by
  induction cs with
  | nil => exact later
  | cons c cs ih =>
    obtain ⟨opens, closes⟩ := plain c List.mem_cons_self
    exact .cons opens closes (ih fun d member => plain d (List.mem_cons_of_mem c member))

/-- Blanks and balanced blocks, and a semicolon with anything after it. -/
inductive Silent : List Char → Prop where
  | nil : Silent []
  | blank {c : Char} {cs : List Char} (blank : Text.isBlank c = true) (later : Silent cs) : Silent (c :: cs)
  | block {inner cs : List Char} (inside : Balanced inner) (later : Silent cs) : Silent ('(' :: inner ++ ')' :: cs)
  | semicolon (cs : List Char) : Silent (';' :: cs)

/-- All that stands outside of parentheses is blank, counted from so many parentheses deep. Blocks may stay
open. -/
def quiet : Nat → List Char → Bool
  | _, [] => true
  | depth, c :: cs =>
    if c = '(' then quiet (depth + 1) cs
    else if c = ')' then depth != 0 && quiet (depth - 1) cs
    else (depth != 0 || Text.isBlank c) && quiet depth cs

theorem quiet_open (depth : Nat) (cs : List Char) : quiet depth ('(' :: cs) = quiet (depth + 1) cs := rfl

theorem quiet_close (depth : Nat) (cs : List Char) : quiet (depth + 1) (')' :: cs) = quiet depth cs := rfl

theorem quiet_blank {c : Char} (blank : Text.isBlank c = true) (depth : Nat) (cs : List Char) :
    quiet depth (c :: cs) = quiet depth cs := by
  have opens : c ≠ '(' := by
    rintro rfl
    exact absurd blank (by decide)
  have closes : c ≠ ')' := by
    rintro rfl
    exact absurd blank (by decide)
  simp [quiet, opens, closes, blank]

theorem quiet_of_append {cs ds : List Char} {depth : Nat} (whole : quiet depth (cs ++ ds) = true) :
    quiet depth cs = true := by
  induction cs generalizing depth with
  | nil => rfl
  | cons c cs ih =>
    simp only [List.cons_append, quiet] at whole ⊢
    split
    · next opens =>
      rw [if_pos opens] at whole
      exact ih whole
    · next opens =>
      rw [if_neg opens] at whole
      split
      · next closes =>
        rw [if_pos closes, Bool.and_eq_true] at whole
        rw [whole.1, ih whole.2]
        rfl
      · next closes =>
        rw [if_neg closes, Bool.and_eq_true] at whole
        rw [whole.1, ih whole.2]
        rfl

theorem quiet_of_prefix {cs ds : List Char} {depth : Nat} (start : cs <+: ds) (whole : quiet depth ds = true) :
    quiet depth cs = true := by
  obtain ⟨rest, rfl⟩ := start
  exact quiet_of_append whole

theorem quiet_balanced {inner : List Char} (balanced : Balanced inner) (depth : Nat) (cs : List Char) :
    quiet (depth + 1) (inner ++ cs) = quiet (depth + 1) cs := by
  induction balanced generalizing depth cs with
  | nil => rfl
  | cons opens closes later ih =>
    rw [List.cons_append, quiet, if_neg opens, if_neg closes, ih]
    simp
  | @block inner rest inside later inner_ih later_ih =>
    have split : '(' :: inner ++ ')' :: rest ++ cs = '(' :: (inner ++ ')' :: (rest ++ cs)) := by simp
    rw [split, quiet_open, inner_ih, quiet_close, later_ih]

/-- A silent line is quiet up to the semicolon that ends what is read of it. -/
theorem quiet_beforeSemicolon {line : List Char} (silent : Silent line) : quiet 0 (beforeSemicolon line) = true := by
  have kept : ∀ before after : List Char, beforeSemicolon (before ++ ';' :: after) <+: before := by
    intro before after
    unfold beforeSemicolon
    rw [List.takeWhile_append]
    split
    · rw [List.takeWhile_cons_of_neg (by simp)]
      simp
    · exact List.takeWhile_prefix _
  suffices parts : quiet 0 line = true ∨ ∃ before after, line = before ++ ';' :: after ∧ quiet 0 before = true by
    rcases parts with whole | ⟨before, after, rfl, first⟩
    · exact quiet_of_prefix (List.takeWhile_prefix _) whole
    · exact quiet_of_prefix (kept before after) first
  induction silent with
  | nil => exact Or.inl rfl
  | @blank c cs blank later ih =>
    rcases ih with whole | ⟨before, after, rfl, first⟩
    · exact Or.inl (by rwa [quiet_blank blank])
    · exact Or.inr ⟨c :: before, after, rfl, by rwa [quiet_blank blank]⟩
  | @block inner cs inside later ih =>
    have around : ∀ rest, quiet 0 ('(' :: inner ++ ')' :: rest) = quiet 0 rest := by
      intro rest
      rw [List.cons_append, quiet_open, quiet_balanced inside, quiet_close]
    rcases ih with whole | ⟨before, after, rfl, first⟩
    · exact Or.inl (by rwa [around])
    · exact Or.inr ⟨'(' :: inner ++ ')' :: before, after, by simp, by rwa [around]⟩
  | semicolon cs => exact Or.inr ⟨[], cs, rfl, rfl⟩

/-! ### Comments taken off -/

/-- Replacing blocks keeps a text quiet. The second part is about the text after the next closing parenthesis,
which is one parenthesis less deep. -/
theorem quiet_foldr_consBlock (cs : List Char) :
    (∀ depth, quiet depth cs = true → quiet depth (cs.foldr consBlock ([], none)).1 = true) ∧
      ∀ rest, (cs.foldr consBlock ([], none)).2 = some rest →
        ∀ depth, quiet (depth + 1) cs = true → quiet depth rest = true := by
  induction cs with
  | nil => exact ⟨fun _ whole => whole, fun rest none => by cases none⟩
  | cons c cs ih =>
    rw [List.foldr_cons]
    generalize cs.foldr consBlock ([], none) = blocks at ih ⊢
    obtain ⟨text, closed⟩ := blocks
    obtain ⟨keeps, closes⟩ := ih
    by_cases close : c = ')'
    · subst close
      refine ⟨?_, ?_⟩
      · intro depth whole
        cases depth with
        | zero => cases whole
        | succ depth => exact keeps depth whole
      · intro rest same depth whole
        obtain rfl : text = rest := Option.some.inj same
        exact keeps depth whole
    · by_cases opens : c = '('
      · subst opens
        cases closed with
        | none => exact ⟨fun depth whole => keeps (depth + 1) whole, fun rest none => by cases none⟩
        | some rest =>
          refine ⟨?_, fun rest none => by cases none⟩
          intro depth whole
          have blanked : quiet depth (' ' :: rest) = quiet depth rest := quiet_blank (by decide) depth rest
          exact blanked.trans (closes rest rfl depth whole)
      · have folded : consBlock c (text, closed) = (c :: text, closed) := by simp [consBlock, close, opens]
        rw [folded]
        refine ⟨?_, ?_⟩
        · intro depth whole
          simp only [quiet, close, opens, ↓reduceIte, Bool.and_eq_true] at whole ⊢
          exact ⟨whole.1, keeps depth whole.2⟩
        · intro rest same depth whole
          simp only [quiet, close, opens, ↓reduceIte, Bool.and_eq_true] at whole
          exact closes rest same depth whole.2

theorem quiet_blankRounds (fuel : Nat) {cs : List Char} (whole : quiet 0 cs = true) :
    quiet 0 (blankRounds fuel cs) = true := by
  induction fuel generalizing cs with
  | zero => exact whole
  | succ fuel ih =>
    unfold blankRounds
    dsimp only
    split
    · exact whole
    · exact ih ((quiet_foldr_consBlock cs).1 0 whole)

/-- In front of the first parenthesis there are only blanks. -/
theorem blank_of_quiet {cs : List Char} (whole : quiet 0 cs = true) :
    ∀ c ∈ cs.takeWhile (· ≠ '('), Text.isBlank c = true := by
  induction cs with
  | nil => simp
  | cons c cs ih =>
    by_cases opens : c = '('
    · simp [opens]
    · by_cases closes : c = ')'
      · subst closes
        cases whole
      · simp only [quiet, opens, closes, ↓reduceIte, Bool.and_eq_true] at whole
        obtain ⟨blank, later⟩ := whole
        rw [List.takeWhile_cons_of_pos (by simpa using opens)]
        intro d member
        rcases List.mem_cons.mp member with rfl | inside
        · simpa using blank
        · exact ih later d inside

theorem trim_of_blank {cs : List Char} (blank : ∀ c ∈ cs, Text.isBlank c = true) : Text.trim cs = [] := by
  have trimmed := Text.trim_blanks_append blank []
  rwa [List.append_nil] at trimmed

theorem quiet_trim {cs : List Char} (whole : quiet 0 cs = true) : quiet 0 (Text.trim cs) = true := by
  have started : quiet 0 (cs.dropWhile Text.isBlank) = true := by
    induction cs with
    | nil => rfl
    | cons c cs ih =>
      by_cases blank : Text.isBlank c = true
      · rw [quiet_blank blank] at whole
        rw [List.dropWhile_cons_of_pos blank]
        exact ih whole
      · rwa [List.dropWhile_cons_of_neg blank]
  exact quiet_of_prefix (List.rdropWhile_prefix Text.isBlank _) started

theorem interpretable?_of_silent {line : List Char} (silent : Silent line) : interpretable? line = none := by
  have whole := quiet_trim (quiet_beforeSemicolon silent)
  cases said : interpretable? line with
  | none => rfl
  | some code =>
    obtain ⟨inhabited, _, content⟩ := interpretable?_eq_some_iff.mp said
    have front := blank_of_quiet whole
    split at content
    · obtain ⟨more, trimmed⟩ := content
      have rest := blank_of_quiet (quiet_blankRounds ((Text.trim (beforeSemicolon line)).count '(') whole)
      exact absurd (trimmed.symm.trans (trim_of_blank rest)) more
    · next closed =>
      have all : (Text.trim (beforeSemicolon line)).takeWhile (· ≠ '(') = Text.trim (beforeSemicolon line) := by
        rw [List.takeWhile_eq_self_iff]
        intro c member
        have other : c ≠ '(' := by
          rintro rfl
          exact closed member
        simpa using other
      rw [all] at front
      exact absurd ((Text.trim_trim _).symm.trans (trim_of_blank front)) inhabited

/-! ### Lines without comments -/

/-- A line that is as `interpretable?` leaves it. -/
structure Clean (code : List Char) : Prop where
  inhabited : code ≠ []
  trimmed : Text.trim code = code
  noSemicolon : ';' ∉ code
  noParenthesis : '(' ∉ code

theorem interpretable?_of_clean {code : List Char} (clean : Clean code) : interpretable? code = some code := by
  have all : beforeSemicolon code = code := by
    refine List.takeWhile_eq_self_iff.mpr ?_
    intro c member
    have other : c ≠ ';' := by
      rintro rfl
      exact clean.noSemicolon member
    simpa using other
  have notBlock : isOneBlock code = false := by
    cases code with
    | nil => rfl
    | cons c cs =>
      have first : c ≠ '(' := by
        rintro rfl
        exact clean.noParenthesis List.mem_cons_self
      simp [isOneBlock, first]
  rw [interpretable?_eq_some_iff, all, clean.trimmed, if_neg clean.noParenthesis]
  exact ⟨clean.inhabited, notBlock, rfl⟩

theorem mem_of_mem_trim {c : Char} {cs : List Char} (member : c ∈ Text.trim cs) : c ∈ cs := by
  have kept : c ∈ cs.dropWhile Text.isBlank := (List.rdropWhile_prefix Text.isBlank _).subset member
  exact (List.dropWhile_suffix _).subset kept

/-- Blocks leave nothing behind but a space. -/
theorem mem_of_mem_blankBlocks {c : Char} {cs : List Char} (member : c ∈ blankBlocks cs) : c = ' ' ∨ c ∈ cs := by
  have parts : (∀ d ∈ (cs.foldr consBlock ([], none)).1, d = ' ' ∨ d ∈ cs) ∧
      ∀ rest, (cs.foldr consBlock ([], none)).2 = some rest → ∀ d ∈ rest, d = ' ' ∨ d ∈ cs := by
    clear member
    induction cs with
    | nil => exact ⟨fun _ inside => Or.inr inside, fun rest none => by cases none⟩
    | cons c cs ih =>
      rw [List.foldr_cons]
      generalize cs.foldr consBlock ([], none) = blocks at ih ⊢
      obtain ⟨text, closed⟩ := blocks
      obtain ⟨inText, inRest⟩ := ih
      have older : ∀ d, d = ' ' ∨ d ∈ cs → d = ' ' ∨ d ∈ c :: cs := fun d =>
        Or.imp_right (List.mem_cons_of_mem c)
      have longer : ∀ d ∈ c :: text, d = ' ' ∨ d ∈ c :: cs := by
        intro d inside
        rcases List.mem_cons.mp inside with rfl | inside
        · exact Or.inr List.mem_cons_self
        · exact older d (inText d inside)
      have afterRest : ∀ rest, closed = some rest → ∀ d ∈ rest, d = ' ' ∨ d ∈ c :: cs := fun rest same d inside =>
        older d (inRest rest same d inside)
      unfold consBlock
      dsimp only
      split
      · refine ⟨longer, ?_⟩
        intro rest same d inside
        obtain rfl : text = rest := Option.some.inj same
        exact older d (inText d inside)
      · split
        · cases closed with
          | none => exact ⟨longer, afterRest⟩
          | some rest =>
            refine ⟨?_, fun rest none => by cases none⟩
            intro d inside
            rcases List.mem_cons.mp inside with rfl | inside
            · exact Or.inl rfl
            · exact afterRest rest rfl d inside
        · exact ⟨longer, afterRest⟩
  exact parts.1 c member

theorem mem_of_mem_blankRounds {fuel : Nat} {c : Char} {cs : List Char} (member : c ∈ blankRounds fuel cs) :
    c = ' ' ∨ c ∈ cs := by
  induction fuel generalizing cs with
  | zero => exact Or.inr member
  | succ fuel ih =>
    unfold blankRounds at member
    dsimp only at member
    split at member
    · exact Or.inr member
    · rcases ih member with space | inside
      · exact Or.inl space
      · exact mem_of_mem_blankBlocks inside

theorem clean_of_interpretable? {line code : List Char} (reads : interpretable? line = some code) : Clean code := by
  obtain ⟨inhabited, _, content⟩ := interpretable?_eq_some_iff.mp reads
  have noSemicolon : ';' ∉ Text.trim (beforeSemicolon line) := by
    intro member
    have kept := List.mem_takeWhile_imp (mem_of_mem_trim member)
    simp at kept
  split at content
  · obtain ⟨more, rfl⟩ := content
    refine ⟨more, Text.trim_trim _, ?_, ?_⟩
    · intro member
      have inside := (List.takeWhile_prefix _).subset (mem_of_mem_trim member)
      rcases mem_of_mem_blankRounds inside with space | old
      · cases space
      · exact noSemicolon old
    · intro member
      have kept := List.mem_takeWhile_imp (mem_of_mem_trim member)
      simp at kept
  · next closed =>
    rw [content] at inhabited noSemicolon closed
    exact ⟨inhabited, by rw [← content, Text.trim_trim], noSemicolon, closed⟩

end Toolpath.Program

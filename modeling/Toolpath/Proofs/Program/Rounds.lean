import Toolpath.Proofs.Program.Comments

/-!
# Blocks replaced round by round

One round replaces the innermost blocks of a text, which never overlap (`Blanked`). Rounds go on until one of them
changes nothing. `settles_blankRounds` says that they come to such an end, after as many rounds as there are opening
parentheses at most, and `no_close_after_open` says what is left then: no closing parenthesis stands behind an opening
one.
-/

namespace Toolpath.Program

/-- Every innermost block of the text is replaced by a space, and all else is kept. -/
inductive Blanked : List Char → List Char → Prop where
  | nil : Blanked [] []
  | block {inner cs ds : List Char} (plain : Unparenthesized inner) (later : Blanked cs ds) :
      Blanked ('(' :: (inner ++ ')' :: cs)) (' ' :: ds)
  | keep {c : Char} {cs ds : List Char}
      (unblocked : ∀ inner after, Unparenthesized inner → c :: cs ≠ '(' :: (inner ++ ')' :: after))
      (later : Blanked cs ds) : Blanked (c :: cs) (c :: ds)

/-- The loop over the rounds, without a bound on their count. -/
inductive Settles : List Char → List Char → Prop where
  | done {cs : List Char} (same : blankBlocks cs = cs) : Settles cs cs
  | again {cs ds : List Char} (changed : blankBlocks cs ≠ cs) (later : Settles (blankBlocks cs) ds) : Settles cs ds

theorem unparenthesized_cons {c : Char} {cs : List Char} (opens : c ≠ '(') (closes : c ≠ ')')
    (plain : Unparenthesized cs) : Unparenthesized (c :: cs) := by
  intro d member
  rcases List.mem_cons.mp member with rfl | later
  · exact ⟨opens, closes⟩
  · exact plain d later

/-! ### One round -/

/-- Without a closing parenthesis ahead of any opening one, there is no text after it. -/
theorem foldr_consBlock_snd {cs : List Char}
    (unclosed : ∀ inner after, Unparenthesized inner → cs ≠ inner ++ ')' :: after) :
    (cs.foldr consBlock ([], none)).2 = none := by
  induction cs with
  | nil => rfl
  | cons c cs ih =>
    rw [List.foldr_cons]
    by_cases closes : c = ')'
    · subst closes
      exact absurd rfl (unclosed [] cs (by simp [Unparenthesized]))
    · by_cases opens : c = '('
      · subst opens
        generalize cs.foldr consBlock ([], none) = blocks
        obtain ⟨text, closed⟩ := blocks
        cases closed <;> rfl
      · have later : ∀ inner after, Unparenthesized inner → cs ≠ inner ++ ')' :: after := by
          rintro inner after plain rfl
          exact unclosed (c :: inner) after (unparenthesized_cons opens closes plain) rfl
        simpa [consBlock, closes, opens] using ih later

theorem blankBlocks_block {inner : List Char} (plain : Unparenthesized inner) (after : List Char) :
    blankBlocks ('(' :: (inner ++ ')' :: after)) = ' ' :: blankBlocks after := by
  unfold blankBlocks
  rw [List.foldr_cons, List.foldr_append, foldr_consBlock_append plain, List.foldr_cons]
  rfl

theorem blankBlocks_keep {c : Char} {cs : List Char}
    (unblocked : ∀ inner after, Unparenthesized inner → c :: cs ≠ '(' :: (inner ++ ')' :: after)) :
    blankBlocks (c :: cs) = c :: blankBlocks cs := by
  unfold blankBlocks
  rw [List.foldr_cons]
  by_cases opens : c = '('
  · subst opens
    have unclosed : ∀ inner after, Unparenthesized inner → cs ≠ inner ++ ')' :: after := by
      rintro inner after plain rfl
      exact unblocked inner after plain rfl
    have waiting := foldr_consBlock_snd unclosed
    generalize cs.foldr consBlock ([], none) = blocks at waiting ⊢
    obtain ⟨text, closed⟩ := blocks
    obtain rfl : closed = none := waiting
    rfl
  · by_cases closes : c = ')' <;> simp [consBlock, opens, closes]

theorem blanked_blankBlocks (cs : List Char) : Blanked cs (blankBlocks cs) := by
  induction length : cs.length using Nat.strong_induction_on generalizing cs with
  | _ n ih =>
    subst length
    cases cs with
    | nil => exact .nil
    | cons c cs =>
      by_cases block : ∃ inner after, Unparenthesized inner ∧ c :: cs = '(' :: (inner ++ ')' :: after)
      · obtain ⟨inner, after, plain, same⟩ := block
        have shorter : after.length < (c :: cs).length := by
          rw [same]
          simp only [List.length_cons, List.length_append]
          omega
        rw [same, blankBlocks_block plain]
        exact .block plain (ih after.length shorter after rfl)
      · have unblocked : ∀ inner after, Unparenthesized inner → c :: cs ≠ '(' :: (inner ++ ')' :: after) :=
          fun inner after plain same => block ⟨inner, after, plain, same⟩
        rw [blankBlocks_keep unblocked]
        exact .keep unblocked (ih cs.length (Nat.lt_succ_self _) cs rfl)

/-- A round that changes something takes an opening parenthesis away. -/
theorem Blanked.same_or_fewer {cs ds : List Char} (blanked : Blanked cs ds) :
    ds = cs ∨ ds.count '(' < cs.count '(' := by
  induction blanked with
  | nil => exact Or.inl rfl
  | @block inner cs ds plain later ih =>
    have none : inner.count '(' = 0 := List.count_eq_zero_of_not_mem (not_open_of_mem plain)
    have fewer : ds.count '(' ≤ cs.count '(' := by
      rcases ih with rfl | less
      · exact le_refl _
      · exact less.le
    refine Or.inr ?_
    simp [none]
    omega
  | @keep c cs ds unblocked later ih =>
    rcases ih with rfl | less
    · exact Or.inl rfl
    · refine Or.inr ?_
      simp only [List.count_cons]
      omega

/-! ### All rounds -/

theorem settles_blankRounds {fuel : ℕ} {cs : List Char} (enough : cs.count '(' ≤ fuel) :
    Settles cs (blankRounds fuel cs) := by
  induction fuel generalizing cs with
  | zero =>
    rcases (blanked_blankBlocks cs).same_or_fewer with same | fewer
    · exact .done same
    · omega
  | succ fuel ih =>
    unfold blankRounds
    dsimp only
    split
    · next same => exact .done same
    · next changed =>
      have fewer := (blanked_blankBlocks cs).same_or_fewer.resolve_left changed
      exact .again changed (ih (by omega))

theorem Settles.fixed {cs ds : List Char} (settles : Settles cs ds) : blankBlocks ds = ds := by
  induction settles with
  | done same => exact same
  | again _ _ ih => exact ih

/-- Where a round changes nothing, no closing parenthesis stands behind an opening one. -/
theorem no_close_after_open {cs : List Char} (blanked : Blanked cs cs) : ')' ∉ cs.dropWhile (· ≠ '(') := by
  induction cs with
  | nil => simp
  | cons c cs ih =>
    cases blanked with
    | keep unblocked later =>
      have behind := ih later
      by_cases opens : c = '('
      · subst opens
        rw [List.dropWhile_cons_of_neg (by simp)]
        intro member
        have member : ')' ∈ cs := by simpa using member
        rw [← List.takeWhile_append_dropWhile (p := (· ≠ '(')) (l := cs), List.mem_append] at member
        have front : ')' ∈ cs.takeWhile (· ≠ '(') := member.resolve_right behind
        -- Up to the first closing parenthesis there would be an innermost block.
        obtain ⟨inner, rest, split, first⟩ := List.eq_append_cons_of_mem front
        refine unblocked inner (rest ++ cs.dropWhile (· ≠ '(')) ?_ ?_
        · intro d inside
          have kept : d ∈ cs.takeWhile (· ≠ '(') := by
            rw [split]
            exact List.mem_append_left _ inside
          refine ⟨by simpa using List.mem_takeWhile_imp kept, ?_⟩
          rintro rfl
          exact first inside
        · have whole : cs = inner ++ ')' :: (rest ++ cs.dropWhile (· ≠ '(')) := by
            rw [← List.cons_append, ← List.append_assoc, ← split, List.takeWhile_append_dropWhile]
          exact congrArg ('(' :: ·) whole
      · rwa [List.dropWhile_cons_of_pos (by simpa using opens)]

end Toolpath.Program

import Mathlib.Data.List.Basic
import Toolpath.Text.Line

/-!
# Laws of lines

A line feed in the middle of a text cuts its lines in two: those up to it and those of the text after it. The
lines up to it are the lines of the first part alone, but for its end: an empty line may come on top, and a
carriage return may be dropped. `filterMap_lines_append` says that a reader of lines who minds neither reads
the two parts one after the other.
-/

namespace Toolpath.Text

def putFirst (c : Char) : List (List Char) → List (List Char)
  | [] => [[c]]
  | line :: later => (c :: line) :: later

/-- The three things that a character does to the lines after it, whichever they are. -/
inductive ConsCase (c : Char) (beforeFeed : Bool) : Prop where
  | feed (eq : ∀ ls, consChar c (ls, beforeFeed) = ([] :: ls, true))
  | skip (eq : ∀ ls, consChar c (ls, beforeFeed) = (ls, false))
  | put (other : c ≠ '\n') (eq : ∀ ls, consChar c (ls, beforeFeed) = (putFirst c ls, false))

theorem consChar_put {c : Char} {beforeFeed : Bool} (feeds : c ≠ '\n')
    (returns : c = '\r' → beforeFeed = false) (ls : List (List Char)) :
    consChar c (ls, beforeFeed) = (putFirst c ls, false) := by
  have kept : (decide (c = '\r') && beforeFeed) = false := by
    by_cases carriage : c = '\r'
    · simp [returns carriage]
    · simp [carriage]
  unfold consChar
  simp only [feeds, kept, ↓reduceIte, Bool.false_eq_true]
  cases ls <;> rfl

theorem consCase (c : Char) (beforeFeed : Bool) : ConsCase c beforeFeed := by
  by_cases feeds : c = '\n'
  · exact .feed fun ls => by rw [feeds]; rfl
  · by_cases returns : c = '\r'
    · cases beforeFeed with
      | true => exact .skip fun ls => by rw [returns]; rfl
      | false => exact .put feeds (consChar_put feeds fun _ => rfl)
    · exact .put feeds (consChar_put feeds fun carriage => absurd carriage returns)

theorem foldr_consChar_append (cs first : List Char) (ls later : List (List Char)) (beforeFeed : Bool) :
    ∃ head rest feeds, cs.foldr consChar (first :: ls, beforeFeed) = (head :: rest, feeds) ∧
      cs.foldr consChar (first :: ls ++ later, beforeFeed) = (head :: rest ++ later, feeds) := by
  induction cs with
  | nil => exact ⟨first, ls, beforeFeed, rfl, rfl⟩
  | cons c cs ih =>
    obtain ⟨head, rest, feeds, alone, joined⟩ := ih
    rw [List.foldr_cons, List.foldr_cons, alone, joined]
    cases consCase c feeds with
    | feed eq => exact ⟨[], head :: rest, true, eq _, eq _⟩
    | skip eq => exact ⟨head, rest, false, eq _, eq _⟩
    | put _ eq => exact ⟨c :: head, rest, false, eq _, eq _⟩

theorem lines_feed_append (first second : List Char) :
    lines (first ++ '\n' :: second) = lines (first ++ ['\n']) ++ lines second := by
  obtain ⟨head, rest, feeds, alone, joined⟩ := foldr_consChar_append first [] [] (lines second) true
  have up : lines (first ++ ['\n']) = head :: rest := by
    rw [lines, List.foldr_append]
    exact congrArg Prod.fst alone
  have whole : lines (first ++ '\n' :: second) = head :: rest ++ lines second := by
    rw [lines, List.foldr_append]
    exact congrArg Prod.fst joined
  rw [up, whole]

/-! ### A line feed at the end -/

/-- The lines of a text, and those that it has once a line feed is put at its end. -/
inductive FeedAdded : List (List Char) → List (List Char) → Prop where
  | opened : FeedAdded [] [[]]
  | returned (line : List Char) : FeedAdded [line ++ ['\r']] [line]
  | same (ls : List (List Char)) : FeedAdded ls ls
  | cons (line : List Char) {ls ms : List (List Char)} (later : FeedAdded ls ms) :
      FeedAdded (line :: ls) (line :: ms)

theorem feedAdded_putFirst (c : Char) {ls ms : List (List Char)} (added : FeedAdded ls ms) :
    FeedAdded (putFirst c ls) (putFirst c ms) := by
  cases added with
  | opened => exact .same [[c]]
  | returned line => exact .returned (c :: line)
  | same ls => exact .same _
  | cons line later => exact .cons (c :: line) later

theorem feedAdded_consChar (c : Char) {ls ms : List (List Char)} (added : FeedAdded ls ms)
    (beforeFeed : Bool) :
    ∃ ls' ms' feeds, consChar c (ls, beforeFeed) = (ls', feeds) ∧ consChar c (ms, beforeFeed) = (ms', feeds) ∧
      FeedAdded ls' ms' := by
  cases consCase c beforeFeed with
  | feed eq => exact ⟨_, _, _, eq ls, eq ms, .cons [] added⟩
  | skip eq => exact ⟨_, _, _, eq ls, eq ms, added⟩
  | put _ eq => exact ⟨_, _, _, eq ls, eq ms, feedAdded_putFirst c added⟩

/-- The last character of a text is the only one that sees the line feed. -/
theorem feedAdded_last (c : Char) :
    ∃ ls ms feeds, consChar c ([], false) = (ls, feeds) ∧ consChar c ([[]], true) = (ms, feeds) ∧
      FeedAdded ls ms := by
  by_cases feeds : c = '\n'
  · subst feeds
    exact ⟨_, _, _, rfl, rfl, .cons [] .opened⟩
  · by_cases returns : c = '\r'
    · subst returns
      exact ⟨_, _, _, rfl, rfl, .returned []⟩
    · have other : c = '\r' → true = false := fun carriage => absurd carriage returns
      exact ⟨_, _, _, consChar_put feeds (fun _ => rfl) [], consChar_put feeds other [[]], .same [[c]]⟩

theorem feedAdded_foldr (cs : List Char) (c : Char) :
    ∃ ls ms feeds, (c :: cs).foldr consChar ([], false) = (ls, feeds) ∧
      (c :: cs).foldr consChar ([[]], true) = (ms, feeds) ∧ FeedAdded ls ms := by
  induction cs generalizing c with
  | nil => exact feedAdded_last c
  | cons d cs ih =>
    obtain ⟨ls, ms, feeds, plain, fed, added⟩ := ih d
    rw [List.foldr_cons, plain]
    rw [List.foldr_cons, fed]
    exact feedAdded_consChar c added feeds

theorem feedAdded_lines (cs : List Char) : FeedAdded (lines cs) (lines (cs ++ ['\n'])) := by
  cases cs with
  | nil => exact .opened
  | cons c cs =>
    obtain ⟨ls, ms, feeds, plain, fed, added⟩ := feedAdded_foldr cs c
    have without : lines (c :: cs) = ls := congrArg Prod.fst plain
    have ended : lines (c :: cs ++ ['\n']) = ms := by
      rw [lines, List.foldr_append]
      exact congrArg Prod.fst fed
    rw [without, ended]
    exact added

/-! ### Readers of lines -/

/-- A reader of lines to whom an empty line says nothing, and who does not see a carriage return at the end
of a line. -/
structure IgnoresEnds {α : Type} (read : List Char → Option α) : Prop where
  empty : read [] = none
  returns : ∀ line, read (line ++ ['\r']) = read line

theorem filterMap_of_feedAdded {α : Type} {read : List Char → Option α} (ignores : IgnoresEnds read)
    {ls ms : List (List Char)} (added : FeedAdded ls ms) : ms.filterMap read = ls.filterMap read := by
  induction added with
  | opened => simp [ignores.empty]
  | returned line => simp [List.filterMap_cons, ignores.returns]
  | same ls => rfl
  | cons line later ih => rw [List.filterMap_cons, List.filterMap_cons, ih]

theorem filterMap_lines_append {α : Type} {read : List Char → Option α} (ignores : IgnoresEnds read)
    (first second : List Char) :
    (lines (first ++ '\n' :: second)).filterMap read =
      (lines first).filterMap read ++ (lines second).filterMap read := by
  have added := feedAdded_lines first
  rw [lines_feed_append, List.filterMap_append, filterMap_of_feedAdded ignores added]

/-! ### Lines put together -/

def unlines (ls : List (List Char)) : List Char := ls.flatMap fun line => line ++ ['\n']

theorem unlines_cons (line : List Char) (ls : List (List Char)) :
    unlines (line :: ls) = line ++ '\n' :: unlines ls := by
  simp [unlines]

theorem no_feed_of_mem_lines (cs : List Char) : ∀ line ∈ lines cs, '\n' ∉ line := by
  unfold lines
  induction cs with
  | nil => simp
  | cons c cs ih =>
    rw [List.foldr_cons]
    generalize cs.foldr consChar ([], false) = state at ih
    obtain ⟨ls, beforeFeed⟩ := state
    cases consCase c beforeFeed with
    | feed eq =>
      rw [eq]
      intro line member
      rcases List.mem_cons.mp member with rfl | old
      · exact List.not_mem_nil
      · exact ih line old
    | skip eq =>
      rw [eq]
      exact ih
    | put other eq =>
      rw [eq]
      cases ls with
      | nil => simpa [putFirst] using Ne.symm other
      | cons first later =>
        have unbroken := ih first List.mem_cons_self
        intro line member
        rcases List.mem_cons.mp member with rfl | old
        · simpa [Ne.symm other] using unbroken
        · exact ih line (List.mem_cons_of_mem first old)

theorem lines_of_no_feed {line : List Char} (unbroken : '\n' ∉ line) :
    lines line = if line = [] then [] else [line] := by
  have folded : line.foldr consChar ([], false) = (if line = [] then [] else [line], false) := by
    induction line with
    | nil => rfl
    | cons c line ih =>
      rw [List.mem_cons, not_or] at unbroken
      rw [List.foldr_cons, ih unbroken.2, consChar_put (Ne.symm unbroken.1) fun _ => rfl]
      split <;> simp_all [putFirst]
  exact congrArg Prod.fst folded

theorem filterMap_lines_unlines {α : Type} {read : List Char → Option α} (ignores : IgnoresEnds read)
    {ls : List (List Char)} (unbroken : ∀ line ∈ ls, '\n' ∉ line) :
    (lines (unlines ls)).filterMap read = ls.filterMap read := by
  induction ls with
  | nil => rfl
  | cons line ls ih =>
    have alone : (lines line).filterMap read = [line].filterMap read := by
      rw [lines_of_no_feed (unbroken line List.mem_cons_self)]
      split
      · next silent => simp [silent, ignores.empty]
      · rfl
    have later := ih fun l member => unbroken l (List.mem_cons_of_mem line member)
    rw [unlines_cons, filterMap_lines_append ignores, alone, later, ← List.filterMap_append]
    rfl

end Toolpath.Text

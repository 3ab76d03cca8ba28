import Toolpath.Proofs.Text.Lines

/-!
# Pieces between line feeds

A text is cut at every line feed, and a reader of lines who does not mind their ends reads the pieces just as
well (`filterMap_lines`). A line end may then be written another way.
-/

namespace Toolpath.Text

def pieces (text : List Char) : List (List Char) := text.splitOn '\n'

/-- A text is one piece, or a piece and a line feed in front of a text. -/
theorem pieces_induction {motive : List Char → Prop} (alone : ∀ piece, '\n' ∉ piece → motive piece)
    (feed : ∀ piece rest, '\n' ∉ piece → motive rest → motive (piece ++ '\n' :: rest)) (text : List Char) :
    motive text := by
  have begun : ∀ piece, '\n' ∉ piece → motive (piece ++ text) := by
    induction text with
    | nil =>
      intro piece unbroken
      rw [List.append_nil]
      exact alone piece unbroken
    | cons c text ih =>
      intro piece unbroken
      by_cases feeds : c = '\n'
      · subst feeds
        exact feed piece text unbroken (ih [] List.not_mem_nil)
      · have longer : '\n' ∉ piece ++ [c] := by simp [unbroken, Ne.symm feeds]
        rw [List.append_cons]
        exact ih (piece ++ [c]) longer
  exact begun [] List.not_mem_nil

theorem pieces_alone {piece : List Char} (unbroken : '\n' ∉ piece) : pieces piece = [piece] :=
  List.splitOn_eq_singleton unbroken

theorem pieces_feed {piece : List Char} (unbroken : '\n' ∉ piece) (rest : List Char) :
    pieces (piece ++ '\n' :: rest) = piece :: pieces rest :=
  List.splitOn_append_cons_self_of_not_mem unbroken rest

theorem no_feed_of_mem_pieces {text piece : List Char} (member : piece ∈ pieces text) : '\n' ∉ piece := by
  induction text using pieces_induction with
  | alone first unbroken =>
    rw [pieces_alone unbroken, List.mem_singleton] at member
    rwa [member]
  | feed first rest unbroken ih =>
    rw [pieces_feed unbroken, List.mem_cons] at member
    rcases member with rfl | later
    · exact unbroken
    · exact ih later

theorem filterMap_lines {α : Type} {read : List Char → Option α} (ignores : IgnoresEnds read) (text : List Char) :
    (lines text).filterMap read = (pieces text).filterMap read := by
  induction text using pieces_induction with
  | alone piece unbroken =>
    rw [lines_of_no_feed unbroken, pieces_alone unbroken]
    split
    · next silent => simp [silent, ignores.empty]
    · rfl
  | feed piece rest unbroken ih =>
    have alone : (lines piece).filterMap read = [piece].filterMap read := by
      rw [lines_of_no_feed unbroken]
      split
      · next silent => simp [silent, ignores.empty]
      · rfl
    rw [filterMap_lines_append ignores, ih, alone, pieces_feed unbroken, ← List.filterMap_append]
    rfl

/-! ### Other texts -/

def join (ls : List (List Char)) : List Char := ['\n'].intercalate ls

theorem pieces_join {ls : List (List Char)} (inhabited : ls ≠ []) (unbroken : ∀ l ∈ ls, '\n' ∉ l) :
    pieces (join ls) = ls :=
  List.splitOn_intercalate '\n' unbroken inhabited

theorem pieces_ne_nil (text : List Char) : pieces text ≠ [] := List.splitOn_ne_nil '\n' text

theorem pieces_map {f : Char → Char} (feeds : ∀ c, f c = '\n' ↔ c = '\n') (text : List Char) :
    pieces (text.map f) = (pieces text).map (List.map f) := by
  have unbroken_map : ∀ piece : List Char, '\n' ∉ piece → '\n' ∉ piece.map f := by
    intro piece unbroken member
    obtain ⟨c, inside, fed⟩ := List.mem_map.mp member
    rw [(feeds c).mp fed] at inside
    exact unbroken inside
  induction text using pieces_induction with
  | alone piece unbroken => rw [pieces_alone unbroken, pieces_alone (unbroken_map piece unbroken)]; rfl
  | feed piece rest unbroken ih =>
    have feed : f '\n' = '\n' := (feeds '\n').mpr rfl
    rw [List.map_append, List.map_cons, feed, pieces_feed (unbroken_map piece unbroken), pieces_feed unbroken, ih,
      List.map_cons]

/-- A carriage return in front of every line feed. -/
def withReturns (text : List Char) : List Char := text.flatMap fun c => if c = '\n' then ['\r', '\n'] else [c]

theorem withReturns_of_no_feed {piece : List Char} (unbroken : '\n' ∉ piece) : withReturns piece = piece := by
  induction piece with
  | nil => rfl
  | cons c piece ih =>
    rw [List.mem_cons, not_or] at unbroken
    have first : (if c = '\n' then ['\r', '\n'] else [c]) = [c] := if_neg (Ne.symm unbroken.1)
    have later : piece.flatMap (fun c => if c = '\n' then ['\r', '\n'] else [c]) = piece := ih unbroken.2
    rw [withReturns, List.flatMap_cons, first, later]
    rfl

theorem filterMap_pieces_withReturns {α : Type} {read : List Char → Option α} (ignores : IgnoresEnds read)
    (text : List Char) : (pieces (withReturns text)).filterMap read = (pieces text).filterMap read := by
  induction text using pieces_induction with
  | alone piece unbroken => rw [withReturns_of_no_feed unbroken]
  | feed piece rest unbroken ih =>
    have ended : withReturns (piece ++ '\n' :: rest) = (piece ++ ['\r']) ++ '\n' :: withReturns rest := by
      have alone := withReturns_of_no_feed unbroken
      unfold withReturns at alone ⊢
      rw [List.flatMap_append, alone]
      simp
    have returned : '\n' ∉ piece ++ ['\r'] := by simp [unbroken]
    rw [ended, pieces_feed returned, pieces_feed unbroken, List.filterMap_cons, List.filterMap_cons, ih,
      ignores.returns]

end Toolpath.Text

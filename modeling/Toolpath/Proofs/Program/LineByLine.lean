import Toolpath.Proofs.Program.Latching
import Toolpath.Proofs.Text.Blanks
import Toolpath.Proofs.Text.Lines

/-!
# Programs line by line

A program can be fed line by line as it stands, or its lines can be cleaned and numbered first. Both come
down to interpreting the lines that say something, one after the other (`spoken`), because the number of a
line decides about nothing. Hence a program may be cut at any line and carried on later.
-/

namespace Toolpath.Program

/-! ### Lines that say something -/

theorem beforeSemicolon_append_return (line : List Char) :
    beforeSemicolon (line ++ ['\r']) = beforeSemicolon line ∨
      beforeSemicolon (line ++ ['\r']) = beforeSemicolon line ++ ['\r'] := by
  unfold beforeSemicolon
  rw [List.takeWhile_append]
  split
  · next whole =>
    have all : line.takeWhile (· ≠ ';') = line := (List.takeWhile_prefix _).eq_of_length whole
    refine Or.inr ?_
    rw [all]
    rfl
  · exact Or.inl rfl

theorem ignoresEnds_interpretable? : Text.IgnoresEnds interpretable? := by
  refine ⟨by decide, ?_⟩
  intro line
  have code : Text.trim (beforeSemicolon (line ++ ['\r'])) = Text.trim (beforeSemicolon line) := by
    rcases beforeSemicolon_append_return line with same | longer
    · rw [same]
    · rw [longer, Text.trim_append_blank _ (by decide)]
  unfold interpretable?
  rw [code]

/-- What the lines of a text say, comments taken off. -/
def spoken (text : List Char) : List (List Char) := (Text.lines text).filterMap interpretable?

theorem spoken_append (first second : List Char) :
    spoken (first ++ '\n' :: second) = spoken first ++ spoken second :=
  Text.filterMap_lines_append ignoresEnds_interpretable? first second

theorem map_snd_interpretableLines (text : List Char) : (interpretableLines text).map Prod.snd = spoken text := by
  unfold interpretableLines spoken Text.numbered
  rw [List.filterMap_map, List.map_filterMap]
  have unnumbered : (fun line : List Char × Nat => interpretable? line.1) = interpretable? ∘ Prod.fst := rfl
  simp only [Function.comp_def, Option.map_map, Option.map_id']
  rw [unnumbered, ← List.filterMap_map, List.zipIdx_map_fst]

/-! ### Numbers of lines -/

namespace Run

variable (settings : ArcSettings)

theorem atLine_atLine (run : Run) (m n : Nat) : (run.atLine m).atLine n = run.atLine n := rfl

theorem interpret_atLine (run : Run) (n : Nat) (code : List Char) :
    (run.atLine n).interpret settings code = (run.interpret settings code).atLine n := by
  have stepped := State.step_atLine settings run.path.isEmpty run.state (Block.ofLine code) n
  simp only [interpret, atLine, stepped]

theorem foldl_interpret_atLine (codes : List (List Char)) (run : Run) (n : Nat) :
    codes.foldl (interpret settings) (run.atLine n) = (codes.foldl (interpret settings) run).atLine n := by
  induction codes generalizing run with
  | nil => rfl
  | cons code codes ih => rw [List.foldl_cons, List.foldl_cons, interpret_atLine, ih]

theorem foldl_feed (lines : List (List Char)) (run : Run) (n : Nat) :
    (lines.foldl (feed settings) run).atLine n =
      ((lines.filterMap interpretable?).foldl (interpret settings) run).atLine n := by
  induction lines generalizing run with
  | nil => rfl
  | cons line lines ih =>
    rw [List.foldl_cons, ih, List.filterMap_cons]
    cases reads : interpretable? line with
    | none =>
      have silent : run.feed settings line = run.atLine (run.state.line + 1) := by
        simp only [feed, reads]
        rfl
      rw [silent, foldl_interpret_atLine, atLine_atLine]
    | some code =>
      have spoke : run.feed settings line = (run.interpret settings code).atLine (run.state.line + 1) := by
        rw [← interpret_atLine]
        simp only [feed, reads]
        rfl
      rw [spoke, foldl_interpret_atLine, atLine_atLine, List.foldl_cons]

theorem foldl_interpretNumbered (lines : List (Nat × List Char)) (run : Run) (n : Nat) :
    (lines.foldl (interpretNumbered settings) run).atLine n =
      ((lines.map Prod.snd).foldl (interpret settings) run).atLine n := by
  induction lines generalizing run with
  | nil => rfl
  | cons line lines ih =>
    have numbered : run.interpretNumbered settings line = (run.interpret settings line.2).atLine line.1 := by
      rw [← interpret_atLine]
      rfl
    rw [List.foldl_cons, ih, numbered, foldl_interpret_atLine, atLine_atLine, List.map_cons, List.foldl_cons]

/-- The runs are equal but for the number of their last line. -/
structure Agrees (r q : Run) : Prop where
  path : r.path = q.path
  state : r.state = { q.state with line := r.state.line }

theorem agrees_of_atLine {r q : Run} (same : ∀ n, r.atLine n = q.atLine n) : r.Agrees q := by
  have paths : (r.atLine 0).path = (q.atLine 0).path := by rw [same]
  have states : (r.atLine r.state.line).state = (q.atLine r.state.line).state := by rw [same]
  exact ⟨paths, states⟩

end Run

section Drivers

variable (settings : ArcSettings)

/-- The lines of a text, each as it stands. -/
def fedLines (run : Run) (text : List Char) : Run := (Text.lines text).foldl (Run.feed settings) run

/-- The lines of a text that say something, cleaned and numbered. -/
def cleanedLines (run : Run) (text : List Char) : Run :=
  (interpretableLines text).foldl (Run.interpretNumbered settings) run

theorem fedLines_atLine (run : Run) (text : List Char) (n : Nat) :
    (fedLines settings run text).atLine n = ((spoken text).foldl (Run.interpret settings) run).atLine n :=
  Run.foldl_feed settings (Text.lines text) run n

theorem cleanedLines_atLine (run : Run) (text : List Char) (n : Nat) :
    (cleanedLines settings run text).atLine n = ((spoken text).foldl (Run.interpret settings) run).atLine n := by
  unfold cleanedLines
  rw [Run.foldl_interpretNumbered, map_snd_interpretableLines]

theorem run_atLine (text : List Char) (n : Nat) :
    (run settings text).atLine n = ((spoken text).foldl (Run.interpret settings) {}).atLine n :=
  cleanedLines_atLine settings {} text n

theorem run_path (text : List Char) :
    (run settings text).path = ((spoken text).foldl (Run.interpret settings) {}).path :=
  (Run.agrees_of_atLine (run_atLine settings text)).path

theorem spoken_foldl_append (r : Run) (first second : List Char) (n : Nat)
    (started : ∀ m, r.atLine m = ((spoken first).foldl (Run.interpret settings) {}).atLine m) :
    ((spoken second).foldl (Run.interpret settings) r).atLine n =
      (run settings (first ++ '\n' :: second)).atLine n := by
  rw [run_atLine, spoken_append, List.foldl_append, ← Run.foldl_interpret_atLine, started,
    Run.foldl_interpret_atLine]

theorem agrees_fedLines (text : List Char) : (fedLines settings {} text).Agrees (run settings text) := by
  apply Run.agrees_of_atLine
  intro n
  rw [fedLines_atLine, run_atLine]

theorem agrees_fedLines_append (first second : List Char) :
    (fedLines settings (fedLines settings {} first) second).Agrees (run settings (first ++ '\n' :: second)) := by
  apply Run.agrees_of_atLine
  intro n
  rw [fedLines_atLine]
  exact spoken_foldl_append settings _ first second n (fedLines_atLine settings {} first)

theorem agrees_cleanedLines_append (first second : List Char) :
    (cleanedLines settings (run settings first) second).Agrees (run settings (first ++ '\n' :: second)) := by
  apply Run.agrees_of_atLine
  intro n
  rw [cleanedLines_atLine]
  exact spoken_foldl_append settings _ first second n (run_atLine settings first)

/-- A program fed line by line gives the document and the state of the whole text interpreted at once, but
for the number of the last line. So does a text that is cut at a line feed and carried on from the state and
the toolpath that its first part leaves, whichever way the lines are taken. -/
theorem line_by_line :
    (∀ text : String,
      let fed := fedLines settings {} text.toList
      fed.path.finish = Document.ofProgram settings text ∧ fed.Agrees (run settings text.toList)) ∧
    ∀ first second : String,
      let text := first ++ "\n" ++ second
      let fed := fedLines settings (fedLines settings {} first.toList) second.toList
      let cleaned := cleanedLines settings (run settings first.toList) second.toList
      (fed.path.finish = Document.ofProgram settings text ∧ fed.Agrees (run settings text.toList)) ∧
        cleaned.path.finish = Document.ofProgram settings text ∧ cleaned.Agrees (run settings text.toList) := by
  refine ⟨?_, ?_⟩
  · intro text fed
    have agrees := agrees_fedLines settings text.toList
    exact ⟨congrArg Builder.finish agrees.path, agrees⟩
  · intro first second text fed cleaned
    have joined : text.toList = first.toList ++ '\n' :: second.toList := by simp [text, String.toList_append]
    have agreesFed := agrees_fedLines_append settings first.toList second.toList
    have agreesCleaned := agrees_cleanedLines_append settings first.toList second.toList
    rw [← joined] at agreesFed agreesCleaned
    exact ⟨⟨congrArg Builder.finish agreesFed.path, agreesFed⟩,
      congrArg Builder.finish agreesCleaned.path, agreesCleaned⟩

end Drivers

end Toolpath.Program

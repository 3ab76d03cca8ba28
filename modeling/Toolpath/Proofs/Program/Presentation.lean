import Mathlib
import Toolpath.Proofs.Program.Letters
import Toolpath.Proofs.Program.Silence

/-!
# How a program is written down

A toolpath depends on the words of a program and on nothing else: not on the case of its letters, nor on how
its lines end, nor on blank lines and comments.
-/

namespace Toolpath.Program

theorem ofProgram_of_said {text other : String} (same : said other.toList = said text.toList)
    (settings : ArcSettings) : Document.ofProgram settings other = Document.ofProgram settings text := by
  rw [ofProgram_eq, ofProgram_eq, same]

theorem spoken_eq (text : List Char) : spoken text = (Text.pieces text).filterMap interpretable? :=
  Text.filterMap_lines ignoresEnds_interpretable? text

/-! ### The case of letters -/

theorem said_map {f : Char → Char} (recases : Recases f) (text : List Char) : said (text.map f) = said text := by
  have line : ∀ code : List Char, Word.ofLine (code.map f) = Word.ofLine code := by
    intro code
    have word : Word.ofText? ∘ List.map f = Word.ofText? := funext recases.ofText?_map
    rw [Word.ofLine, recases.words_map, List.filterMap_map, word]
    rfl
  have spoke : spoken (text.map f) = (spoken text).map (List.map f) := by
    have reads : interpretable? ∘ List.map f = fun l => (interpretable? l).map (List.map f) :=
      funext recases.interpretable?_map
    rw [spoken_eq, spoken_eq, Text.pieces_map (recases.eq_iff rfl), List.filterMap_map, reads, List.map_filterMap]
  have lines : Word.ofLine ∘ List.map f = Word.ofLine := funext line
  rw [said, spoke, List.map_map, lines]
  rfl

/-! ### Ends of lines -/

theorem spoken_withReturns (text : List Char) : spoken (Text.withReturns text) = spoken text := by
  rw [spoken_eq, Text.filterMap_pieces_withReturns ignoresEnds_interpretable?, spoken_eq]

/-! ### Lines that say nothing -/

/-- The second list has the lines of the first one, and silent lines anywhere between them. -/
inductive Padded : List (List Char) → List (List Char) → Prop where
  | nil : Padded [] []
  | kept (line : List Char) {ls ms : List (List Char)} (later : Padded ls ms) : Padded (line :: ls) (line :: ms)
  | added {line : List Char} (silent : Silent line) {ls ms : List (List Char)} (later : Padded ls ms) :
      Padded ls (line :: ms)

theorem filterMap_of_padded {ls ms : List (List Char)} (padded : Padded ls ms) :
    ms.filterMap interpretable? = ls.filterMap interpretable? := by
  induction padded with
  | nil => rfl
  | kept line later ih => rw [List.filterMap_cons, List.filterMap_cons, ih]
  | added silent later ih => rw [List.filterMap_cons_none (interpretable?_of_silent silent), ih]

theorem spoken_of_padded {text other : List Char} (padded : Padded (Text.pieces text) (Text.pieces other)) :
    spoken other = spoken text := by
  rw [spoken_eq, filterMap_of_padded padded, spoken_eq]

/-! ### Comments taken off -/

/-- A text with every line as it is read, or empty where the line says nothing. -/
def cleaned (text : List Char) : List Char :=
  Text.join ((Text.pieces text).map fun line => (interpretable? line).getD [])

theorem interpretable?_cleaned (line : List Char) :
    interpretable? ((interpretable? line).getD []) = interpretable? line := by
  cases reads : interpretable? line with
  | none => rfl
  | some code => exact interpretable?_of_clean (clean_of_interpretable? reads)

theorem no_feed_of_interpretable? {line code : List Char} (unbroken : '\n' ∉ line)
    (reads : interpretable? line = some code) : '\n' ∉ code := by
  obtain ⟨_, _, content⟩ := interpretable?_eq_some_iff.mp reads
  have read : '\n' ∉ Text.trim (beforeSemicolon line) := by
    intro member
    exact unbroken ((List.takeWhile_prefix _).subset (mem_of_mem_trim member))
  intro member
  split at content
  · obtain ⟨_, rfl⟩ := content
    have inside := (List.takeWhile_prefix _).subset (mem_of_mem_trim member)
    rcases mem_of_mem_blankRounds inside with space | old
    · cases space
    · exact read old
  · rw [content] at read
    exact read member

theorem spoken_cleaned (text : List Char) : spoken (cleaned text) = spoken text := by
  have inhabited : (Text.pieces text).map (fun line => (interpretable? line).getD []) ≠ [] := by
    simpa using Text.pieces_ne_nil text
  have unbroken : ∀ l ∈ (Text.pieces text).map fun line => (interpretable? line).getD [], '\n' ∉ l := by
    intro l member
    obtain ⟨line, piece, rfl⟩ := List.mem_map.mp member
    cases reads : interpretable? line with
    | none => exact List.not_mem_nil
    | some code => exact no_feed_of_interpretable? (Text.no_feed_of_mem_pieces piece) reads
  have again : interpretable? ∘ (fun line => (interpretable? line).getD []) = interpretable? :=
    funext interpretable?_cleaned
  rw [spoken_eq, cleaned, Text.pieces_join inhabited unbroken, List.filterMap_map, again, spoken_eq]

/-- A program has the same toolpath in capital and in small letters, with a carriage return at the end of each
line, with lines that say nothing put in anywhere, and with the comments taken off every line. -/
theorem presentation_irrelevant (settings : ArcSettings) (text : String) :
    let document := Document.ofProgram settings text
    Document.ofProgram settings text.toUpper = document ∧
      Document.ofProgram settings text.toLower = document ∧
      Document.ofProgram settings (String.ofList (Text.withReturns text.toList)) = document ∧
      (∀ padded : String, Padded (Text.pieces text.toList) (Text.pieces padded.toList) →
        Document.ofProgram settings padded = document) ∧
      Document.ofProgram settings (String.ofList (cleaned text.toList)) = document := by
  intro document
  refine ⟨?_, ?_, ?_, ?_, ?_⟩
  · apply ofProgram_of_said
    rw [String.toUpper, String.toList_map]
    exact said_map recases_toUpper text.toList
  · apply ofProgram_of_said
    rw [String.toLower, String.toList_map]
    exact said_map recases_toLower text.toList
  · apply ofProgram_of_said
    rw [String.toList_ofList, said, spoken_withReturns]
    rfl
  · intro padded lines
    apply ofProgram_of_said
    rw [said, spoken_of_padded lines]
    rfl
  · apply ofProgram_of_said
    rw [String.toList_ofList, said, spoken_cleaned]
    rfl

/-- Two cuts with a heading, an empty line and a note put in. -/
theorem annotated_same :
    let text := "G1 X1\nY2 (up)"
    let annotated := "(part (side A))\nG1 X1\n \n; then up\nY2 (up)\n"
    Padded (Text.pieces text.toList) (Text.pieces annotated.toList) ∧
      Document.ofProgram {} annotated = Document.ofProgram {} text := by
  intro text annotated
  have plain : Unparenthesized "part ".toList ∧ Unparenthesized "side A".toList := by simp [Unparenthesized]
  have side : Balanced "side A".toList := @balanced_append _ [] plain.2 .nil
  have inner : Balanced "part (side A)".toList := balanced_append plain.1 (.block side .nil)
  have heading : Silent "(part (side A))".toList := .block inner .nil
  have blank : Silent [' '] := .blank (by decide) .nil
  have note : Silent "; then up".toList := .semicolon _
  have before : Text.pieces text.toList = ["G1 X1".toList, "Y2 (up)".toList] := by decide +kernel
  have after : Text.pieces annotated.toList = ["(part (side A))".toList, "G1 X1".toList, [' '], "; then up".toList,
      "Y2 (up)".toList, []] := by decide +kernel
  have padded : Padded (Text.pieces text.toList) (Text.pieces annotated.toList) := by
    rw [before, after]
    exact .added heading (.kept _ (.added blank (.added note (.kept _ (.added .nil .nil)))))
  exact ⟨padded, (presentation_irrelevant {} text).2.2.2.1 annotated padded⟩

end Toolpath.Program

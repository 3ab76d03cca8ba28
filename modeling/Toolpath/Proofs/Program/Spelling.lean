import Toolpath.Proofs.Program.Comments
import Toolpath.Proofs.Program.Words

/-!
# Motions spelled out

A line with coordinates may leave out its motion and rely on the one in force. `SpelledOut` relates a program
to one in which lines of this kind name that motion, wherever in the line, and `spellOut` writes it in front of
all of them. The two runs can differ in the motion in force for a while, where one has none yet and the other
a rapid, but no line can tell.
-/

namespace Toolpath.Program

def Motion.code : Motion → Code
  | .rapid => .rapid
  | .linear => .linear
  | .arc .clockwise => .arcClockwise
  | .arc .counterClockwise => .arcCounterClockwise

/-- The line has coordinates and relies on the motion in force for them. -/
def leavesOutMotion (ws : List Word) : Bool :=
  ws.any Word.isCoordinate && (ws.all fun w => w.motion?.isNone) && !ws.any Word.setsOrigin

theorem leavesOutMotion_iff (ws : List Word) :
    leavesOutMotion ws = true ↔ ws.any Word.isCoordinate = true ∧ (∀ w ∈ ws, w.motion? = none) ∧
      ws.any Word.setsOrigin = false := by
  simp [leavesOutMotion, and_assoc]

namespace Block

theorem add_code (b : Block) (m : Motion) : b.add (.code m.code) = { b with motion := some m } := by
  rcases m with _ | _ | turn
  · simp [add, addCode, Motion.code, Code.motion?, Code.plane?, Code.absolute?]
  · simp [add, addCode, Motion.code, Code.motion?, Code.plane?, Code.absolute?]
  · cases turn <;> simp [add, addCode, Motion.code, Code.motion?, Code.plane?, Code.absolute?]

/-- A motion may be named anywhere in a line that names no other. -/
theorem ofWords_insert {before after : List Word} (silent : ∀ w ∈ before ++ after, w.motion? = none) (m : Motion) :
    ofWords (before ++ .code m.code :: after) = { ofWords (before ++ after) with motion := some m } := by
  have later : ∀ w ∈ after, w.motion? = none := fun w member => silent w (List.mem_append_right before member)
  unfold ofWords
  rw [List.foldl_append, List.foldl_cons, add_code, foldl_add_relatched later, List.foldl_append]

end Block

/-- The second program has the lines of the first one. Of those that leave out their motion, some or all name
the motion that is in force when the first program comes to them. -/
inductive SpelledOut (settings : ArcSettings) : Run → List (List Word) → List (List Word) → Prop where
  | done (run : Run) : SpelledOut settings run [] []
  | kept {run : Run} (ws : List Word) {lines explicit : List (List Word)}
      (later : SpelledOut settings (run.obey settings ws) lines explicit) :
      SpelledOut settings run (ws :: lines) (ws :: explicit)
  | named {run : Run} (before after : List Word) {lines explicit : List (List Word)}
      (omits : leavesOutMotion (before ++ after) = true)
      (later : SpelledOut settings (run.obey settings (before ++ after)) lines explicit) :
      SpelledOut settings run ((before ++ after) :: lines)
        ((before ++ .code run.state.inForce.code :: after) :: explicit)

/-! ### The two runs -/

/-- The second run is the first one but for the motion in force, and asks for the same motions. -/
structure Run.Echoes (r q : Run) : Prop where
  path : q.path = r.path
  state : q.state = { r.state with motion := q.state.motion }
  motion : q.state.inForce = r.state.inForce

section Echoes

variable (settings : ArcSettings) {r q : Run}

theorem motionOf_of_inForce {s : State} {k : Option Motion} (same : State.inForce { s with motion := k } = s.inForce)
    (b : Block) : State.motionOf { s with motion := k } b = s.motionOf b := by
  cases named : b.motion with
  | some m => simp only [State.motionOf, named]
  | none => rw [State.motionOf_of_motion_none named, State.motionOf_of_motion_none named, same]

theorem latched_of_inForce {s : State} {k : Option Motion} (same : State.inForce { s with motion := k } = s.inForce)
    (b : Block) : (State.latched { s with motion := k } b).getD .rapid = (s.latched b).getD .rapid := by
  unfold State.latched
  split
  · exact same
  · cases b.motion with
    | some m => rfl
    | none => exact same

theorem Run.Echoes.obey (echoes : r.Echoes q) {ws vs : List Word} {x : Option Motion}
    (block : Block.ofWords vs = { Block.ofWords ws with motion := x })
    (asks : State.motionOf { r.state with motion := q.state.motion } { Block.ofWords ws with motion := x } =
      r.state.motionOf (Block.ofWords ws))
    (latch : (State.latched { r.state with motion := q.state.motion }
      { Block.ofWords ws with motion := x }).getD .rapid = (r.state.latched (Block.ofWords ws)).getD .rapid) :
    (r.obey settings ws).Echoes (q.obey settings vs) := by
  have stepped := State.step_relatched asks settings r.path.isEmpty r.state.line
  have latched := State.step_motion settings r.path.isEmpty r.state (Block.ofWords ws)
  have numbered : (r.state.step settings r.path.isEmpty (Block.ofWords ws)).1.line = r.state.line := by
    have own := State.step_atLine settings r.path.isEmpty r.state (Block.ofWords ws) r.state.line
    exact congrArg (State.line ∘ Prod.fst) own
  change State.step settings r.path.isEmpty { r.state with motion := q.state.motion } _ = _ at stepped
  rw [← echoes.state, ← block] at stepped
  rw [← echoes.state, ← block] at latch
  refine ⟨?_, ?_, ?_⟩
  · simp only [Run.obey, echoes.path, stepped]
  · simp only [Run.obey, echoes.path, stepped, numbered.symm]
  · simp only [Run.obey, State.inForce, echoes.path, stepped, latched]
    exact latch

theorem Run.Echoes.kept (echoes : r.Echoes q) (ws : List Word) :
    (r.obey settings ws).Echoes (q.obey settings ws) := by
  have same : State.inForce { r.state with motion := q.state.motion } = r.state.inForce := echoes.motion
  exact echoes.obey settings (x := (Block.ofWords ws).motion) rfl (motionOf_of_inForce same _)
    (latched_of_inForce same _)

theorem Run.Echoes.named (echoes : r.Echoes q) {before after : List Word}
    (omits : leavesOutMotion (before ++ after) = true) :
    (r.obey settings (before ++ after)).Echoes
      (q.obey settings (before ++ .code r.state.inForce.code :: after)) := by
  obtain ⟨coordinates, silent, moves⟩ := (leavesOutMotion_iff _).mp omits
  rw [← Block.hasCoordinates_ofWords] at coordinates
  rw [← Block.setsOrigin_ofWords] at moves
  have bare := Block.motion_ofWords silent
  refine echoes.obey settings (Block.ofWords_insert silent r.state.inForce) ?_ ?_
  · rw [State.motionOf_of_motion_none bare, if_pos coordinates]
    rfl
  · simp only [State.latched, moves, bare, Bool.false_eq_true, ↓reduceIte]
    rfl

theorem Run.Echoes.foldl {lines explicit : List (List Word)} (echoes : r.Echoes q)
    (spelled : SpelledOut settings r lines explicit) :
    (lines.foldl (Run.obey settings) r).Echoes (explicit.foldl (Run.obey settings) q) := by
  induction spelled generalizing q with
  | done run => exact echoes
  | kept ws later ih => exact ih (echoes.kept settings ws)
  | named before after omits later ih => exact ih (echoes.named settings omits)

theorem ofProgram_of_spelledOut {text explicit : String}
    (spelled : SpelledOut settings {} (said text.toList) (said explicit.toList)) :
    Document.ofProgram settings explicit = Document.ofProgram settings text := by
  have echoes : Run.Echoes {} {} := ⟨rfl, rfl, rfl⟩
  have path := (echoes.foldl settings spelled).path
  rw [ofProgram_eq, ofProgram_eq, path]

end Echoes

/-! ### Motions written in front of their lines -/

def Motion.letters : Motion → List Char
  | .rapid => ['G', '0']
  | .linear => ['G', '1']
  | .arc .clockwise => ['G', '2']
  | .arc .counterClockwise => ['G', '3']

theorem solid_letters (m : Motion) : Solid m.letters := by
  rcases m with _ | _ | _ | _
  all_goals exact solid_of_all (by decide) (by decide)

theorem ofText?_letters (m : Motion) : Word.ofText? m.letters = some (.code m.code) := by
  rcases m with _ | _ | _ | _
  all_goals decide +kernel

def explicitLine (m : Motion) (line code : List Char) : List Char :=
  if leavesOutMotion (Word.ofLine code) then m.letters ++ ' ' :: line else line

def explicitLines (settings : ArcSettings) (run : Run) : List (List Char) → List (List Char)
  | [] => []
  | line :: later =>
    match interpretable? line with
    | some code =>
      explicitLine run.state.inForce line code :: explicitLines settings (run.interpret settings code) later
    | none => line :: explicitLines settings run later

/-- Writes the motion in force in front of every line that leaves it out. -/
def spellOut (settings : ArcSettings) (text : String) : String :=
  String.ofList (Text.unlines (explicitLines settings {} (Text.lines text.toList)))

def saidLine (line : List Char) : Option (List Word) := (interpretable? line).map Word.ofLine

theorem said_eq (text : List Char) : said text = (Text.lines text).filterMap saidLine := by
  unfold said spoken
  rw [List.map_filterMap]
  rfl

theorem ignoresEnds_saidLine : Text.IgnoresEnds saidLine := by
  refine ⟨by decide, ?_⟩
  intro line
  rw [saidLine, ignoresEnds_interpretable?.returns]
  rfl

theorem saidLine_explicitLine (m : Motion) {line code : List Char} (reads : interpretable? line = some code) :
    saidLine (explicitLine m line code) =
      some (if leavesOutMotion (Word.ofLine code) then .code m.code :: Word.ofLine code else Word.ofLine code) := by
  unfold explicitLine saidLine
  split
  · obtain ⟨blanks, blank, longer⟩ := interpretable?_append (solid_letters m) reads
    have first : Word.ofLine (m.letters ++ ' ' :: (blanks ++ code)) = .code m.code :: Word.ofLine code := by
      unfold Word.ofLine
      rw [words_append (solid_letters m) blank, List.filterMap_cons, ofText?_letters]
    rw [longer, Option.map_some, first]
  · rw [reads, Option.map_some]

theorem leavesOutMotion_named (m : Motion) (ws : List Word) : leavesOutMotion (.code m.code :: ws) = false := by
  have named : (Word.code m.code).motion?.isNone = false := by rcases m with _ | _ | _ | _ <;> rfl
  simp [leavesOutMotion, named]

theorem spelledOut_explicitLines (settings : ArcSettings) (lines : List (List Char)) (run : Run) :
    SpelledOut settings run (lines.filterMap saidLine) ((explicitLines settings run lines).filterMap saidLine) := by
  induction lines generalizing run with
  | nil => exact .done run
  | cons line lines ih =>
    unfold explicitLines
    cases reads : interpretable? line with
    | none =>
      have silent : saidLine line = none := by rw [saidLine, reads, Option.map_none]
      rw [List.filterMap_cons_none silent, List.filterMap_cons_none silent]
      exact ih run
    | some code =>
      have speaks : saidLine line = some (Word.ofLine code) := by rw [saidLine, reads, Option.map_some]
      rw [List.filterMap_cons_some speaks, List.filterMap_cons_some (saidLine_explicitLine _ reads)]
      have later := ih (run.interpret settings code)
      split
      · next omits => exact .named [] (Word.ofLine code) omits later
      · exact .kept (Word.ofLine code) later

theorem no_omission_explicitLines (settings : ArcSettings) (lines : List (List Char)) (run : Run) :
    ∀ ws ∈ (explicitLines settings run lines).filterMap saidLine, leavesOutMotion ws = false := by
  induction lines generalizing run with
  | nil => simp [explicitLines]
  | cons line lines ih =>
    unfold explicitLines
    cases reads : interpretable? line with
    | none =>
      have silent : saidLine line = none := by rw [saidLine, reads, Option.map_none]
      rw [List.filterMap_cons_none silent]
      exact ih run
    | some code =>
      rw [List.filterMap_cons_some (saidLine_explicitLine _ reads)]
      intro ws member
      rcases List.mem_cons.mp member with rfl | later
      · split
        · exact leavesOutMotion_named _ _
        · next names => exact Bool.eq_false_iff.mpr names
      · exact ih _ ws later

theorem no_feed_of_mem_explicitLines (settings : ArcSettings) {lines : List (List Char)}
    (unbroken : ∀ line ∈ lines, '\n' ∉ line) (run : Run) :
    ∀ line ∈ explicitLines settings run lines, '\n' ∉ line := by
  induction lines generalizing run with
  | nil => simp [explicitLines]
  | cons line lines ih =>
    obtain ⟨first, later⟩ := List.forall_mem_cons.mp unbroken
    unfold explicitLines
    split
    · next code reads =>
      refine List.forall_mem_cons.mpr ⟨?_, ih later _⟩
      unfold explicitLine
      split
      · have letters : '\n' ∉ run.state.inForce.letters := fun member =>
          absurd ((solid_letters _).unblank _ member) (by decide)
        simp [letters, first]
      · exact first
    · exact List.forall_mem_cons.mpr ⟨first, ih later run⟩

theorem said_spellOut (settings : ArcSettings) (text : String) :
    said (spellOut settings text).toList =
      (explicitLines settings {} (Text.lines text.toList)).filterMap saidLine := by
  have unbroken := no_feed_of_mem_explicitLines settings (Text.no_feed_of_mem_lines text.toList) {}
  rw [said_eq, spellOut, String.toList_ofList]
  exact Text.filterMap_lines_unlines ignoresEnds_saidLine unbroken

/-- Naming the motion in force in lines that leave it out, anywhere in them, changes nothing of the toolpath,
and `spellOut` names it in all of them. -/
theorem spelled_out_same (settings : ArcSettings) (text : String) :
    (∀ explicit : String, SpelledOut settings {} (said text.toList) (said explicit.toList) →
      Document.ofProgram settings explicit = Document.ofProgram settings text) ∧
    SpelledOut settings {} (said text.toList) (said (spellOut settings text).toList) ∧
    (∀ ws ∈ said (spellOut settings text).toList, leavesOutMotion ws = false) ∧
    Document.ofProgram settings (spellOut settings text) = Document.ofProgram settings text := by
  have spelled : SpelledOut settings {} (said text.toList) (said (spellOut settings text).toList) := by
    rw [said_spellOut, said_eq]
    exact spelledOut_explicitLines settings (Text.lines text.toList) {}
  have none_left : ∀ ws ∈ said (spellOut settings text).toList, leavesOutMotion ws = false := by
    rw [said_spellOut]
    exact no_omission_explicitLines settings (Text.lines text.toList) {}
  exact ⟨fun _ other => ofProgram_of_spelledOut settings other, spelled, none_left,
    ofProgram_of_spelledOut settings spelled⟩

def terse : String := "Y1\nG1 X1\nG92 X0\nX2 Y3"

theorem terse_spelled_out :
    SpelledOut {} {} (said terse.toList) (said "Y1 G0\nG1 X1\nG92 X0\nX2 G1 Y3".toList) ∧
      Document.ofProgram {} "Y1 G0\nG1 X1\nG92 X0\nX2 G1 Y3" = Document.ofProgram {} terse := by
  have spelled :
      SpelledOut {} {} (said terse.toList) (said "Y1 G0\nG1 X1\nG92 X0\nX2 G1 Y3".toList) := by
    have short : said terse.toList =
        [[.y 1] ++ [], [.code .linear, .x 1], [.code .setOrigin, .x 0], [.x 2] ++ [.y 3]] := by
      decide +kernel
    have full : said "Y1 G0\nG1 X1\nG92 X0\nX2 G1 Y3".toList =
        [[.y 1] ++ .code .rapid :: [], [.code .linear, .x 1], [.code .setOrigin, .x 0],
          [.x 2] ++ .code .linear :: [.y 3]] := by
      decide +kernel
    rw [short, full]
    have last : ∀ run : Run, run.state.inForce = .linear →
        SpelledOut {} run [[.x 2] ++ [.y 3]] [[.x 2] ++ .code .linear :: [.y 3]] := by
      intro run linear
      have code : run.state.inForce.code = .linear := by rw [linear, Motion.code]
      rw [← code]
      exact .named [.x 2] [.y 3] (by decide) (.done _)
    refine .named [.y 1] [] (by decide) (.kept _ (.kept _ ?_))
    exact last _ (by decide +kernel)
  exact ⟨spelled, (spelled_out_same {} terse).1 _ spelled⟩

end Toolpath.Program

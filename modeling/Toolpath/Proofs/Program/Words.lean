import Toolpath.Proofs.Program.LineByLine

/-!
# Programs as words

What a program does is decided by the words of the lines that say something (`said`). A line asks for a block,
and of the words of a kind the last one counts; these are the laws of putting a block together from words.
-/

namespace Toolpath

namespace Program

/-- One line, given by its words. -/
def Run.obey (settings : ArcSettings) (run : Run) (ws : List Word) : Run :=
  let (state, effect) := run.state.step settings run.path.isEmpty (Block.ofWords ws)
  { state := state
    path := (run.path.countLine.countArcs effect.arcs).append effect.waypoints }

/-- The words of the lines that say something. -/
def said (text : List Char) : List (List Word) := (spoken text).map Word.ofLine

theorem foldl_interpret_eq_foldl_obey (settings : ArcSettings) (codes : List (List Char)) (run : Run) :
    codes.foldl (Run.interpret settings) run = (codes.map Word.ofLine).foldl (Run.obey settings) run := by
  rw [List.foldl_map]
  rfl

theorem ofProgram_eq (settings : ArcSettings) (text : String) :
    Document.ofProgram settings text = ((said text.toList).foldl (Run.obey settings) {}).path.finish := by
  rw [Document.ofProgram, run_path, foldl_interpret_eq_foldl_obey]
  rfl

/-! ### Blocks from words -/

def Word.motion? : Word → Option Motion
  | .code c => c.motion?
  | _ => none

def Word.isCoordinate : Word → Bool
  | .x _ | .y _ | .z _ => true
  | _ => false

def Word.setsOrigin : Word → Bool
  | .code c => c = .setOrigin
  | _ => false

namespace Block

theorem ofWords_concat (ws : List Word) (w : Word) : ofWords (ws ++ [w]) = (ofWords ws).add w := by
  rw [ofWords, List.foldl_append]
  rfl

theorem add_relatched (b : Block) (k : Option Motion) (w : Word) :
    add { b with motion := k } w = { b.add w with motion := w.motion? <|> k } := by
  cases w <;> rfl

theorem add_hasCoordinates (b : Block) (w : Word) :
    (b.add w).hasCoordinates = (b.hasCoordinates || w.isCoordinate) := by
  cases w <;> simp [add, addCode, hasCoordinates, Word.isCoordinate]

theorem add_setsOrigin (b : Block) (w : Word) : (b.add w).setsOrigin = (b.setsOrigin || w.setsOrigin) := by
  cases w <;> simp [add, addCode, Word.setsOrigin]

variable {ws : List Word}

theorem foldl_add_relatched (silent : ∀ w ∈ ws, w.motion? = none) (b : Block) (k : Option Motion) :
    ws.foldl add { b with motion := k } = { ws.foldl add b with motion := k } := by
  induction ws generalizing b with
  | nil => rfl
  | cons w ws ih =>
    have unnamed : w.motion? = none := silent w List.mem_cons_self
    have later : ∀ v ∈ ws, v.motion? = none := fun v member => silent v (List.mem_cons_of_mem w member)
    rw [List.foldl_cons, List.foldl_cons, add_relatched, unnamed]
    exact ih later (b.add w)

theorem motion_ofWords (silent : ∀ w ∈ ws, w.motion? = none) : (ofWords ws).motion = none := by
  have start := foldl_add_relatched silent {} none
  exact congrArg Block.motion start

/-- What any word of a line may bring about is brought about by the line. -/
theorem ofWords_any {field : Block → Bool} {brings : Word → Bool} (empty : field {} = false)
    (each : ∀ b w, field (add b w) = (field b || brings w)) (ws : List Word) :
    field (ofWords ws) = ws.any brings := by
  have folded : ∀ b : Block, field (ws.foldl add b) = (field b || ws.any brings) := by
    induction ws with
    | nil => intro b; simp
    | cons w ws ih =>
      intro b
      rw [List.foldl_cons, ih, each, List.any_cons, Bool.or_assoc]
  rw [ofWords, folded, empty, Bool.false_or]

theorem hasCoordinates_ofWords (ws : List Word) : (ofWords ws).hasCoordinates = ws.any Word.isCoordinate :=
  ofWords_any rfl add_hasCoordinates ws

theorem setsOrigin_ofWords (ws : List Word) : (ofWords ws).setsOrigin = ws.any Word.setsOrigin :=
  ofWords_any rfl add_setsOrigin ws

end Block

end Program

end Toolpath

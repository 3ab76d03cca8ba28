import Toolpath.Program.Run
import Toolpath.Proofs.Arc.Ends
import Toolpath.Proofs.Path.Builder

/-!
# What one block does

`State.stepCase` is the only place where `State.step` is taken apart: a block sets the origin, or only
the modes, or asks for a motion that is passed over or carried out. `run_induction` carries a fact about
runs from the empty run through every line of a program.
-/

namespace Toolpath.Program

namespace State

/-- The position that a block leads to once its own distance mode is in force. -/
def goal (s : State) (b : Block) : Position := b.target (s.withModes b).absolute s.position

/-- The four ways through `step`. Neither the settings nor the toolpath so far decide which one is taken. -/
inductive StepCase (s : State) (b : Block) : Prop where
  | origin (sets : b.setsOrigin = true)
      (eq : ∀ settings fresh, s.step settings fresh b = ((s.withModes b).setOrigin b, {}))
  | modes (moves : b.setsOrigin = false) (still : (s.withModes b).motionOf b = none)
      (eq : ∀ settings fresh, s.step settings fresh b = (s.withModes b, {}))
  | idle (m : Motion) (moves : b.setsOrigin = false) (motion : (s.withModes b).motionOf b = some m)
      (idle : (s.withModes b).isIdle b m = true)
      (eq : ∀ settings fresh, s.step settings fresh b = ((s.withModes b).beginMotion b, {}))
  | move (m : Motion) (moves : b.setsOrigin = false) (motion : (s.withModes b).motionOf b = some m)
      (busy : (s.withModes b).isIdle b m = false)
      (eq : ∀ settings fresh, s.step settings fresh b =
        ({ (s.withModes b).beginMotion b with position := s.goal b },
          (s.withModes b).motionEffect settings fresh b m))

theorem stepCase (s : State) (b : Block) : StepCase s b := by
  cases sets : b.setsOrigin with
  | true => exact .origin sets fun settings fresh => by simp only [step, sets, ↓reduceIte]
  | false =>
    cases motion : (s.withModes b).motionOf b with
    | none => exact .modes sets motion fun settings fresh => by simp [step, sets, motion]
    | some m =>
      cases idle : (s.withModes b).isIdle b m with
      | true => exact .idle m sets motion idle fun settings fresh => by simp [step, sets, motion, idle]
      | false =>
        refine .move m sets motion idle fun settings fresh => ?_
        simp only [step, sets, motion, idle, Bool.false_eq_true, ↓reduceIte]
        rfl

end State

/-! ### Runs -/

namespace Run

@[simp] theorem interpret_state (settings : ArcSettings) (run : Run) (code : List Char) :
    (run.interpret settings code).state =
      (run.state.step settings run.path.isEmpty (Block.ofLine code)).1 := rfl

@[simp] theorem interpret_lines (settings : ArcSettings) (run : Run) (code : List Char) :
    (run.interpret settings code).path.lines = run.path.lines + 1 :=
  (Builder.counts_append _ _).1

@[simp] theorem interpret_arcs (settings : ArcSettings) (run : Run) (code : List Char) :
    (run.interpret settings code).path.arcs = run.path.arcs +
      (run.state.step settings run.path.isEmpty (Block.ofLine code)).2.arcs :=
  (Builder.counts_append _ _).2

theorem holds_interpret (settings : ArcSettings) {run : Run} {ws : List Waypoint}
    (holds : run.path.Holds ws) (code : List Char) :
    (run.interpret settings code).path.Holds
      (ws ++ (run.state.step settings ws.isEmpty (Block.ofLine code)).2.waypoints) := by
  rw [← Builder.isEmpty_of_holds holds]
  exact Builder.holds_append (Builder.holds_countArcs (Builder.holds_countLine holds) _) _

def atLine (run : Run) (n : Nat) : Run := { run with state := { run.state with line := n } }

end Run

/-- What holds of the empty run and is kept by every line holds of the run of a program. -/
theorem run_induction {motive : Run → Prop} (settings : ArcSettings) (text : List Char)
    (start : motive {})
    (line : ∀ (run : Run) (n : Nat) (code : List Char),
      motive run → motive ((run.atLine n).interpret settings code)) :
    motive (run settings text) := by
  unfold run
  generalize interpretableLines text = lines
  suffices folded : ∀ r, motive r → motive (lines.foldl (Run.interpretNumbered settings) r) from
    folded {} start
  induction lines with
  | nil => exact fun r holds => holds
  | cons numbered lines ih => exact fun r holds => ih _ (line r numbered.1 numbered.2 holds)

end Toolpath.Program

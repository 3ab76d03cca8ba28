import Toolpath.Program.Comment
import Toolpath.Program.State
import Toolpath.Text.Line

/-!
# Running a program

A run pairs the modal state with the toolpath built so far. `Run.feed` takes one line as it stands,
and `Document.ofProgram` interprets a whole text.
-/

namespace Toolpath

namespace Program

structure Run where
  state : State := {}
  path : Builder := {}

namespace Run

def interpret (settings : ArcSettings) (run : Run) (line : List Char) : Run :=
  let (state, effect) := run.state.step settings run.path.isEmpty (Block.ofLine line)
  { state := state
    path := (run.path.countLine.countArcs effect.arcs).append effect.waypoints }

def feed (settings : ArcSettings) (run : Run) (line : List Char) : Run :=
  let run := { run with state := { run.state with line := run.state.line + 1 } }
  match interpretable? line with
  | some code => run.interpret settings code
  | none => run

/-- The count of waypoints that a line reports to have added. -/
def reported (settings : ArcSettings) (run : Run) (line : List Char) : Nat :=
  match interpretable? line with
  | some code => (run.state.step settings run.path.isEmpty (Block.ofLine code)).2.reported
  | none => 0

def interpretNumbered (settings : ArcSettings) (run : Run) (line : Nat × List Char) : Run :=
  { run with state := { run.state with line := line.1 } }.interpret settings line.2

end Run

/-- The lines of a text that say something, without their comments and with their numbers. -/
def interpretableLines (text : List Char) : List (Nat × List Char) :=
  (Text.numbered (Text.lines text)).filterMap fun (n, line) =>
    (interpretable? line).map fun code => (n, code)

def run (settings : ArcSettings) (text : List Char) : Run :=
  (interpretableLines text).foldl (Run.interpretNumbered settings) {}

end Program

/-- The toolpath of a program. Text without meaning adds nothing to it. -/
def Document.ofProgram (settings : ArcSettings) (text : String) : Document :=
  (Program.run settings text.toList).path.finish

end Toolpath

import Toolpath.Proofs.Arc.Rotation
import Toolpath.Proofs.Path.Rotation
import Toolpath.Proofs.Program.Words

/-!
# Programs in rotation

The axis words, the offset words and the planes of a program take each other's places in turn. A program that
is rotated in this way leaves the rotated toolpath, and the rotated state, as long as arcs stay at one height.
-/

namespace Toolpath.Program

def Code.rotate : Code → Code
  | .planeXY => .planeYZ
  | .planeYZ => .planeZX
  | .planeZX => .planeXY
  | c => c

def Word.rotate : Word → Word
  | .code c => .code c.rotate
  | .x v => .y v
  | .y v => .z v
  | .z v => .x v
  | .i v => .j v
  | .j v => .k v
  | .k v => .i v
  | .r v => .r v
  | .other letter v => .other letter v

namespace Block

def rotate (b : Block) : Block :=
  { b with
    plane := b.plane.map Plane.rotate
    x := b.z
    y := b.x
    z := b.y
    i := b.k
    j := b.i
    k := b.j }

theorem add_rotate (b : Block) (w : Word) : b.rotate.add w.rotate = (b.add w).rotate := by
  cases w with
  | code c => cases c <;> rfl
  | _ => rfl

theorem ofWords_rotate (ws : List Word) : ofWords (ws.map Word.rotate) = (ofWords ws).rotate := by
  have folded : ∀ b : Block, (ws.map Word.rotate).foldl add b.rotate = (ws.foldl add b).rotate := by
    induction ws with
    | nil => intro b; rfl
    | cons w ws ih =>
      intro b
      rw [List.map_cons, List.foldl_cons, List.foldl_cons, add_rotate]
      exact ih (b.add w)
  exact folded {}

theorem hasCoordinates_rotate (b : Block) : b.rotate.hasCoordinates = b.hasCoordinates := by
  simp only [hasCoordinates, rotate]
  ac_rfl

theorem offset?_rotate (b : Block) (plane : Plane) : b.rotate.offset? plane.rotate = b.offset? plane := by
  cases plane <;> rfl

end Block

def State.rotate (s : State) : State := { s with position := s.position.rotate, plane := s.plane.rotate }

def Effect.rotate (e : Effect) : Effect := { e with waypoints := e.waypoints.map Waypoint.rotate }

namespace State

theorem withModes_rotate (s : State) (b : Block) : s.rotate.withModes b.rotate = (s.withModes b).rotate := by
  cases plane : b.plane <;> simp [withModes, rotate, Block.rotate, plane]

theorem motionOf_rotate (s : State) (b : Block) : s.rotate.motionOf b.rotate = s.motionOf b := by
  unfold motionOf
  rw [Block.hasCoordinates_rotate]
  rfl

theorem offset?_rotate (s : State) (b : Block) : b.rotate.offset? s.rotate.plane = b.offset? s.plane :=
  b.offset?_rotate s.plane

theorem isIdle_rotate (s : State) (b : Block) (m : Motion) : s.rotate.isIdle b.rotate m = s.isIdle b m := by
  have centre : s.rotate.namesCentre b.rotate m = s.namesCentre b m := by
    unfold namesCentre
    rw [offset?_rotate]
  have near : s.rotate.position.coincides (b.rotate.target s.rotate.absolute s.rotate.position) =
      s.position.coincides (b.target s.absolute s.position) :=
    Position.coincides_rotate s.position (b.target s.absolute s.position)
  unfold isIdle
  rw [centre, near]
  rfl

theorem arc_rotate (s : State) (b : Block) (turn : Turn) : s.rotate.arc b.rotate turn = (s.arc b turn).rotate := by
  unfold arc Arc.rotate
  rw [offset?_rotate]
  rfl

theorem motionEffect_rotate {settings : ArcSettings} (flat : settings.helical = false) (fresh : Bool) (s : State)
    (b : Block) (m : Motion) :
    s.rotate.motionEffect settings fresh b.rotate m = (s.motionEffect settings fresh b m).rotate := by
  cases m with
  | arc turn =>
    simp only [motionEffect, arc_rotate, Arc.points_rotate flat, Effect.rotate, List.map_tail, List.map_map,
      List.length_map]
    rfl
  | linear => rfl
  | rapid => cases fresh <;> rfl

theorem step_rotate {settings : ArcSettings} (flat : settings.helical = false) (fresh : Bool) (s : State)
    (b : Block) :
    s.rotate.step settings fresh b.rotate =
      ((s.step settings fresh b).1.rotate, (s.step settings fresh b).2.rotate) := by
  have goal : s.rotate.goal b.rotate = (s.goal b).rotate := rfl
  have asked : s.rotate.motionOf b.rotate = s.motionOf b := motionOf_rotate s b
  cases stepCase s b with
  | origin sets eq =>
    rw [eq, step_of_sets settings fresh (b := b.rotate) sets, withModes_rotate]
    rfl
  | modes moves still eq =>
    rw [eq, step_of_still settings fresh (b := b.rotate) moves (asked.trans still), withModes_rotate]
    rfl
  | idle m moves motion idle eq =>
    have passed : (s.rotate.withModes b.rotate).isIdle b.rotate m = true := by
      rw [withModes_rotate, isIdle_rotate, idle]
    rw [eq, step_of_idle settings fresh (b := b.rotate) moves (asked.trans motion) passed, withModes_rotate]
    rfl
  | move m moves motion busy eq =>
    have done : (s.rotate.withModes b.rotate).isIdle b.rotate m = false := by
      rw [withModes_rotate, isIdle_rotate, busy]
    rw [eq, step_of_busy settings fresh (b := b.rotate) moves (asked.trans motion) done, withModes_rotate, goal,
      motionEffect_rotate flat]
    rfl

end State

namespace Run

def rotate (r : Run) : Run := { state := r.state.rotate, path := r.path.rotate }

theorem obey_rotate {settings : ArcSettings} (flat : settings.helical = false) (r : Run) (ws : List Word) :
    r.rotate.obey settings (ws.map Word.rotate) = (r.obey settings ws).rotate := by
  have stepped := State.step_rotate flat r.path.isEmpty r.state (Block.ofWords ws)
  have empty : r.rotate.path.isEmpty = r.path.isEmpty := r.path.isEmpty_rotate
  have counted (n : Nat) : r.rotate.path.countLine.countArcs n = (r.path.countLine.countArcs n).rotate := rfl
  unfold obey
  rw [Block.ofWords_rotate, empty, show r.rotate.state = r.state.rotate from rfl, stepped]
  dsimp only
  rw [counted, Effect.rotate, Builder.append_rotate]
  rfl

theorem foldl_obey_rotate {settings : ArcSettings} (flat : settings.helical = false) (lines : List (List Word))
    (r : Run) :
    (lines.map (List.map Word.rotate)).foldl (obey settings) r.rotate = (lines.foldl (obey settings) r).rotate := by
  induction lines generalizing r with
  | nil => rfl
  | cons ws lines ih =>
    rw [List.map_cons, List.foldl_cons, List.foldl_cons, obey_rotate flat]
    exact ih (r.obey settings ws)

end Run

/-- Rotated lines lead from the rotated state to the rotated state, and add the rotated toolpath: every point
rotated, and the same flags, segments and counts. -/
theorem rotated_run {settings : ArcSettings} (flat : settings.helical = false) (run : Run)
    (lines : List (List Word)) :
    let straight := lines.foldl (Run.obey settings) run
    let turned := (lines.map (List.map Word.rotate)).foldl (Run.obey settings) run.rotate
    turned.state = straight.state.rotate ∧ turned.path.finish = straight.path.finish.rotate := by
  intro straight turned
  have whole : turned = straight.rotate := Run.foldl_obey_rotate flat lines run
  rw [whole]
  exact ⟨rfl, Builder.finish_rotate straight.path⟩

/-- A rapid, a quarter turn in the plane of the first two axes, and an arc in another plane. -/
def quarterTurn : List (List Word) :=
  [[.code .rapid, .x 5], [.code .arcCounterClockwise, .x 0, .y 5, .i (-5)], [.code .planeZX], [.x 1, .z 2, .k 1]]

def quarterTurnAhead : List (List Word) :=
  [[.code .rapid, .y 5], [.code .arcCounterClockwise, .y 0, .z 5, .j (-5)], [.code .planeXY], [.y 1, .x 2, .i 1]]

theorem quarter_turn_ahead :
    ({} : ArcSettings).helical = false ∧
      (quarterTurnAhead.foldl (Run.obey {}) { state := { plane := .yz } }).path.finish =
        (quarterTurn.foldl (Run.obey {}) {}).path.finish.rotate := by
  have flat : ({} : ArcSettings).helical = false := rfl
  have ahead : quarterTurn.map (List.map Word.rotate) = quarterTurnAhead := rfl
  have start : Run.rotate {} = { state := { plane := .yz } } := by
    simp [Run.rotate, State.rotate, Builder.rotate, Plane.rotate, Position.rotate, Position.origin]
  obtain ⟨-, document⟩ := rotated_run flat {} quarterTurn
  rw [ahead, start] at document
  exact ⟨flat, document⟩

end Toolpath.Program

import Toolpath.Proofs.Program.Step

/-!
# The motion in force

A block that names a motion puts it in force, unless it sets the origin. `step_relatched` says that nothing
else of the state or of what a block adds to the toolpath depends on the motion in force, as long as the same
motion is asked for, nor on the number of the line.
-/

namespace Toolpath.Program.State

/-- The motion that blocks without one of their own ask for: before any is in force, it is a rapid. -/
def inForce (s : State) : Motion := s.motion.getD .rapid

/-- The motion in force after a block. -/
def latched (s : State) (b : Block) : Option Motion := if b.setsOrigin then s.motion else b.motion <|> s.motion

theorem motion_of_motionOf_none {s : State} {b : Block} (still : s.motionOf b = none) : b.motion = none := by
  unfold motionOf at still
  cases named : b.motion with
  | none => rfl
  | some m => simp [named] at still

theorem motionOf_of_motion_none {s : State} {b : Block} (bare : b.motion = none) :
    s.motionOf b = if b.hasCoordinates then some s.inForce else none := by
  unfold motionOf
  rw [bare]
  rfl

theorem step_motion (settings : ArcSettings) (fresh : Bool) (s : State) (b : Block) :
    (s.step settings fresh b).1.motion = s.latched b := by
  unfold latched
  cases stepCase s b with
  | origin sets eq =>
    rw [eq, if_pos sets]
    rfl
  | modes moves still eq =>
    have unnamed : b.motion = none := motion_of_motionOf_none still
    rw [eq, moves, unnamed]
    rfl
  | idle m moves motion idle eq =>
    rw [eq, moves]
    rfl
  | move m moves motion busy eq =>
    rw [eq, moves]
    rfl

/-! ### Blocks one by one -/

section Equations

variable (settings : ArcSettings) (fresh : Bool) {s : State} {b : Block} {m : Motion}

theorem step_of_sets (sets : b.setsOrigin = true) :
    s.step settings fresh b = ((s.withModes b).setOrigin b, {}) := by
  simp only [step, sets, ↓reduceIte]

theorem step_of_still (moves : b.setsOrigin = false) (still : s.motionOf b = none) :
    s.step settings fresh b = (s.withModes b, {}) := by
  have quiet : (s.withModes b).motionOf b = none := still
  simp only [step, moves, quiet, Bool.false_eq_true, ↓reduceIte]

theorem step_of_idle (moves : b.setsOrigin = false) (motion : s.motionOf b = some m)
    (idle : (s.withModes b).isIdle b m = true) :
    s.step settings fresh b = ((s.withModes b).beginMotion b, {}) := by
  have asked : (s.withModes b).motionOf b = some m := motion
  simp only [step, moves, asked, idle, Bool.false_eq_true, ↓reduceIte]

theorem step_of_busy (moves : b.setsOrigin = false) (motion : s.motionOf b = some m)
    (busy : (s.withModes b).isIdle b m = false) :
    s.step settings fresh b =
      ({ (s.withModes b).beginMotion b with position := s.goal b },
        (s.withModes b).motionEffect settings fresh b m) := by
  have asked : (s.withModes b).motionOf b = some m := motion
  simp only [step, moves, asked, busy, Bool.false_eq_true, ↓reduceIte]
  rfl

end Equations

/-- Two blocks that ask for the same motion do the same, though one may name it and the other rely on the
motion in force. -/
theorem step_relatched {s : State} {b : Block} {k x : Option Motion}
    (asks : motionOf { s with motion := k } { b with motion := x } = s.motionOf b)
    (settings : ArcSettings) (fresh : Bool) (n : Nat) :
    step settings fresh { s with motion := k, line := n } { b with motion := x } =
      ({ (s.step settings fresh b).1 with
          motion := latched { s with motion := k } { b with motion := x }, line := n },
        (s.step settings fresh b).2) := by
  -- What decides about a block is the same for both, since it does not look at the motion in force.
  have asked : motionOf { s with motion := k, line := n } { b with motion := x } = s.motionOf b := asks
  unfold latched
  cases stepCase s b with
  | origin sets eq =>
    rw [eq, step_of_sets settings fresh (b := { b with motion := x }) sets, if_pos sets]
    rfl
  | modes moves still eq =>
    have unnamed : x = none := motion_of_motionOf_none (asked.trans still)
    have other : b.setsOrigin ≠ true := by simp [moves]
    rw [eq, step_of_still settings fresh (b := { b with motion := x }) moves (asked.trans still), if_neg other]
    rw [unnamed]
    rfl
  | idle m moves motion idle eq =>
    have other : b.setsOrigin ≠ true := by simp [moves]
    rw [eq, step_of_idle settings fresh (b := { b with motion := x }) moves (asked.trans motion) idle,
      if_neg other]
    rfl
  | move m moves motion busy eq =>
    have other : b.setsOrigin ≠ true := by simp [moves]
    rw [eq, step_of_busy settings fresh (b := { b with motion := x }) moves (asked.trans motion) busy,
      if_neg other]
    cases m <;> rfl

theorem step_atLine (settings : ArcSettings) (fresh : Bool) (s : State) (b : Block) (n : Nat) :
    step settings fresh { s with line := n } b =
      ({ (s.step settings fresh b).1 with line := n }, (s.step settings fresh b).2) := by
  have renumbered := step_relatched (s := s) (b := b) (k := s.motion) (x := b.motion) rfl settings fresh n
  have latch := step_motion settings fresh s b
  rw [renumbered]
  change ({ (s.step settings fresh b).1 with motion := s.latched b, line := n }, _) = _
  rw [← latch]

end Toolpath.Program.State

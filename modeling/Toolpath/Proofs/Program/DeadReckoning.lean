import Toolpath.Proofs.Program.Step

/-!
# Dead reckoning

`Reckoning` follows a program by its coordinate words alone: every line leads to its goal. The interpreter
does so except where `State.Loses` holds: a motion within the tolerance is passed over and the position
does not follow it. `position_follows_iff` says that this is the only way to lose a motion, for one line
and for every run.
-/

namespace Toolpath.Program

def Block.Moves (b : Block) : Prop :=
  b.setsOrigin = false ∧ (b.motion.isSome = true ∨ b.hasCoordinates = true)

theorem Block.target_of_no_coordinates {b : Block} (absolute : Bool) (p : Position)
    (bare : b.hasCoordinates = false) : b.target absolute p = p := by
  simp only [hasCoordinates, Bool.or_eq_false_iff, Option.isSome_eq_false_iff, Option.isNone_iff_eq_none] at bare
  simp only [target, bare, axis]

namespace State

/-- The block asks for a motion to somewhere else, though so near that it is passed over: it is not the
opening rapid, and no arc around a centre of its own. -/
structure Loses (s : State) (b : Block) : Prop where
  motion : ∃ m, (s.withModes b).motionOf b = some m ∧ (s.withModes b).isOpeningRapid m = false ∧
    (s.withModes b).namesCentre b m = false
  moves : b.setsOrigin = false
  near : s.position.coincides (s.goal b) = true
  apart : s.goal b ≠ s.position

/-- The position that dead reckoning has after a block. -/
def reckoned (s : State) (b : Block) : Position :=
  b.target (b.setsOrigin || b.absolute.getD s.absolute) s.position

theorem reckoned_of_moves {s : State} {b : Block} (moves : b.setsOrigin = false) : s.reckoned b = s.goal b := by
  rw [reckoned, moves, Bool.false_or]
  rfl

theorem isIdle_eq_true_iff (s : State) (b : Block) (m : Motion) :
    (s.withModes b).isIdle b m = true ↔ s.position.coincides (s.goal b) = true ∧
      (s.withModes b).isOpeningRapid m = false ∧ (s.withModes b).namesCentre b m = false := by
  simp only [isIdle, Bool.and_eq_true, Bool.not_eq_true', and_assoc]
  rfl

theorem hasCoordinates_of_motionOf_none {s : State} {b : Block} (still : s.motionOf b = none) :
    b.hasCoordinates = false := by
  unfold motionOf at still
  split at still
  · cases still
  · split at still
    · cases still
    · next bare => exact Bool.eq_false_iff.mpr bare

theorem loses_iff {s : State} {b : Block} {m : Motion} (moves : b.setsOrigin = false)
    (motion : (s.withModes b).motionOf b = some m) :
    s.Loses b ↔ (s.withModes b).isIdle b m = true ∧ s.goal b ≠ s.position := by
  rw [isIdle_eq_true_iff]
  constructor
  · intro loses
    obtain ⟨k, asked, notOpening, notCircle⟩ := loses.motion
    obtain rfl : m = k := Option.some.inj (motion.symm.trans asked)
    exact ⟨⟨loses.near, notOpening, notCircle⟩, loses.apart⟩
  · rintro ⟨⟨near, notOpening, notCircle⟩, apart⟩
    exact ⟨⟨m, motion, notOpening, notCircle⟩, moves, near, apart⟩

theorem step_position_eq_reckoned_iff (settings : ArcSettings) (fresh : Bool) (s : State) (b : Block) :
    (s.step settings fresh b).1.position = s.reckoned b ↔ ¬ s.Loses b := by
  cases stepCase s b with
  | origin sets eq =>
    have keeps : ¬ s.Loses b := fun loses => by simpa [sets] using loses.moves
    have follows : (s.step settings fresh b).1.position = s.reckoned b := by
      rw [eq, reckoned, sets, Bool.true_or]
      rfl
    exact iff_of_true follows keeps
  | modes moves still eq =>
    have keeps : ¬ s.Loses b := fun loses => by
      obtain ⟨m, motion, _⟩ := loses.motion
      rw [still] at motion
      cases motion
    have follows : (s.step settings fresh b).1.position = s.reckoned b := by
      rw [eq, reckoned, Block.target_of_no_coordinates _ _ (hasCoordinates_of_motionOf_none still)]
      rfl
    exact iff_of_true follows keeps
  | idle m moves motion idle eq =>
    -- The position stays, which is right only if the goal is no other.
    have stays : (s.step settings fresh b).1.position = s.position := by rw [eq]; rfl
    rw [stays, reckoned_of_moves moves, loses_iff moves motion, idle]
    simp only [true_and, ne_eq, Decidable.not_not]
    exact eq_comm
  | move m moves motion busy eq =>
    have follows : (s.step settings fresh b).1.position = s.goal b := by rw [eq]
    rw [follows, reckoned_of_moves moves, loses_iff moves motion, busy]
    simp

theorem step_position_of_loses (settings : ArcSettings) (fresh : Bool) {s : State} {b : Block}
    (loses : s.Loses b) : (s.step settings fresh b).1.position = s.position := by
  obtain ⟨m, motion, _⟩ := loses.motion
  obtain ⟨idle, _⟩ := (loses_iff loses.moves motion).mp loses
  cases stepCase s b with
  | origin sets _ => simp [loses.moves] at sets
  | modes _ still _ => simp [motion] at still
  | idle _ _ _ _ eq => rw [eq]; rfl
  | move k _ asked busy _ =>
    obtain rfl : m = k := Option.some.inj (motion.symm.trans asked)
    simp [idle] at busy

theorem step_absolute (settings : ArcSettings) (fresh : Bool) (s : State) (b : Block) :
    (s.step settings fresh b).1.absolute = b.absolute.getD s.absolute := by
  cases stepCase s b with
  | origin _ eq | modes _ _ eq | idle _ _ _ _ eq | move _ _ _ _ eq => rw [eq]; rfl

end State

/-! ### Lines and runs -/

def block? (line : List Char) : Option Block := (interpretable? line).map Block.ofLine

/-- The distance mode and the position by coordinate words alone. -/
structure Reckoning where
  absolute : Bool
  position : Position

namespace Reckoning

def ofState (s : State) : Reckoning := ⟨s.absolute, s.position⟩

/-- The next line: its own distance mode comes first, and setting the origin is always absolute. -/
def feed (r : Reckoning) (line : List Char) : Reckoning :=
  match block? line with
  | some b =>
    let absolute := b.absolute.getD r.absolute
    ⟨absolute, b.target (b.setsOrigin || absolute) r.position⟩
  | none => r

end Reckoning

def State.LosesLine (s : State) (line : List Char) : Prop := ∃ b, block? line = some b ∧ s.Loses b

namespace Run

theorem feed_of_block {line : List Char} {b : Block} (settings : ArcSettings) (run : Run)
    (block : block? line = some b) :
    (run.feed settings line).state =
      ((run.atLine (run.state.line + 1)).state.step settings run.path.isEmpty b).1 := by
  obtain ⟨code, reads, rfl⟩ := Option.map_eq_some_iff.mp block
  simp only [feed, reads, interpret_state]
  rfl

theorem feed_of_silence {line : List Char} (settings : ArcSettings) (run : Run)
    (silent : block? line = none) :
    (run.feed settings line).state = (run.atLine (run.state.line + 1)).state := by
  have nothing := Option.map_eq_none_iff.mp silent
  simp only [feed, nothing]
  rfl

theorem loses_atLine (run : Run) (n : Nat) (b : Block) :
    (run.atLine n).state.Loses b ↔ run.state.Loses b :=
  ⟨fun loses => ⟨loses.motion, loses.moves, loses.near, loses.apart⟩,
    fun loses => ⟨loses.motion, loses.moves, loses.near, loses.apart⟩⟩

theorem feed_position_eq_goal_iff {line : List Char} {b : Block} (settings : ArcSettings) (run : Run)
    (block : block? line = some b) (moves : b.setsOrigin = false) :
    (run.feed settings line).state.position = run.state.goal b ↔ ¬ run.state.Loses b := by
  rw [feed_of_block settings run block, ← loses_atLine run (run.state.line + 1) b,
    ← State.step_position_eq_reckoned_iff settings run.path.isEmpty, State.reckoned_of_moves moves]
  rfl

theorem feed_position_of_loses {line : List Char} {b : Block} (settings : ArcSettings) (run : Run)
    (block : block? line = some b) (loses : run.state.Loses b) :
    (run.feed settings line).state.position = run.state.position := by
  rw [feed_of_block settings run block]
  exact State.step_position_of_loses settings _ ((loses_atLine run _ b).mpr loses)

theorem feed_reckoned_iff (settings : ArcSettings) (run : Run) (line : List Char) :
    Reckoning.ofState (run.feed settings line).state = (Reckoning.ofState run.state).feed line ↔
      ¬ run.state.LosesLine line := by
  cases block : block? line with
  | none =>
    have keeps : ¬ run.state.LosesLine line := fun ⟨b, spoken, _⟩ => by rw [block] at spoken; cases spoken
    rw [feed_of_silence settings run block, Reckoning.feed, block]
    exact iff_of_true rfl keeps
  | some b =>
    have only : run.state.LosesLine line ↔ run.state.Loses b := by simp [State.LosesLine, block]
    have mode := State.step_absolute settings run.path.isEmpty (run.atLine (run.state.line + 1)).state b
    rw [feed_of_block settings run block, Reckoning.feed, block, only, ← loses_atLine run (run.state.line + 1) b,
      ← State.step_position_eq_reckoned_iff settings run.path.isEmpty]
    simp only [Reckoning.ofState, Reckoning.mk.injEq, mode]
    exact and_iff_right rfl

/-- The modes do not depend on the positions, so that dead reckoning is right when its position is. -/
theorem foldl_absolute (settings : ArcSettings) (lines : List (List Char)) (run : Run) (r : Reckoning)
    (same : run.state.absolute = r.absolute) :
    (lines.foldl (Run.feed settings) run).state.absolute = (lines.foldl Reckoning.feed r).absolute := by
  induction lines generalizing run r with
  | nil => exact same
  | cons line lines ih =>
    refine ih _ _ ?_
    cases block : block? line with
    | none =>
      rw [feed_of_silence settings run block, Reckoning.feed, block]
      exact same
    | some b =>
      rw [feed_of_block settings run block, Reckoning.feed, block, State.step_absolute, ← same]
      rfl

end Run

section Runs

variable (settings : ArcSettings) (run : Run) (lines : List (List Char))

def Run.after (n : Nat) : Run := (lines.take n).foldl (Run.feed settings) run

def Run.reckonedAfter (n : Nat) : Reckoning := (lines.take n).foldl Reckoning.feed (.ofState run.state)

theorem Run.after_succ {n : Nat} {line : List Char} (next : lines[n]? = some line) :
    run.after settings lines (n + 1) = (run.after settings lines n).feed settings line := by
  simp [after, List.take_add_one, next]

theorem Run.reckonedAfter_succ {n : Nat} {line : List Char} (next : lines[n]? = some line) :
    run.reckonedAfter lines (n + 1) = (run.reckonedAfter lines n).feed line := by
  simp [reckonedAfter, List.take_add_one, next]

theorem Run.reckoned_iff_position (n : Nat) :
    Reckoning.ofState (run.after settings lines n).state = run.reckonedAfter lines n ↔
      (run.after settings lines n).state.position = (run.reckonedAfter lines n).position := by
  have mode := foldl_absolute settings (lines.take n) run (.ofState run.state) rfl
  constructor
  · exact fun same => congrArg Reckoning.position same
  · intro same
    unfold Reckoning.ofState
    rw [same]
    exact congrArg (Reckoning.mk · (run.reckonedAfter lines n).position) mode

theorem Run.reckoned_iff :
    (∀ n, Reckoning.ofState (run.after settings lines n).state = run.reckonedAfter lines n) ↔
      ∀ n line, lines[n]? = some line → ¬ (run.after settings lines n).state.LosesLine line := by
  constructor
  · intro tracks n line next
    rw [← feed_reckoned_iff settings, ← after_succ settings run lines next, tracks, tracks,
      reckonedAfter_succ run lines next]
  · intro keeps n
    induction n with
    | zero => rfl
    | succ n ih =>
      cases next : lines[n]? with
      | some line =>
        rw [after_succ settings run lines next, reckonedAfter_succ run lines next, ← ih]
        exact (feed_reckoned_iff settings _ line).mpr (keeps n line next)
      | none =>
        have past : lines.take (n + 1) = lines.take n := by simp [List.take_add_one, next]
        rw [after, reckonedAfter, past]
        exact ih

/-- A motion is lost where `Loses` holds and nowhere else. A single line that moves leads to its goal
unless it loses its motion, and then it leaves the tool where it was. A run is where its coordinate words
add up to, after every line, exactly when none of its lines loses its motion. -/
theorem position_follows_iff :
    (∀ line b, block? line = some b → b.Moves →
      ((run.feed settings line).state.position = run.state.goal b ↔ ¬ run.state.Loses b) ∧
      (run.state.Loses b → (run.feed settings line).state.position = run.state.position)) ∧
    ((∀ n, (run.after settings lines n).state.position = (run.reckonedAfter lines n).position) ↔
      ∀ n line, lines[n]? = some line → ¬ (run.after settings lines n).state.LosesLine line) := by
  refine ⟨?_, ?_⟩
  · intro line b block moves
    exact ⟨Run.feed_position_eq_goal_iff settings run block moves.1,
      Run.feed_position_of_loses settings run block⟩
  · rw [← Run.reckoned_iff]
    exact forall_congr' fun n => (Run.reckoned_iff_position settings run lines n).symm

end Runs

theorem unit_step_followed :
    let line := "G91 X1".toList
    let b : Block := { absolute := some false, x := some 1 }
    block? line = some b ∧ b.Moves ∧ (Run.feed {} {} line).state.position = ⟨1, 0, 0⟩ := by
  intro line b
  have spoken : block? line = some b := by decide +kernel
  have moves : b.Moves := ⟨rfl, Or.inr rfl⟩
  have keeps : ¬ ({} : State).Loses b := by
    intro loses
    have near := loses.near
    revert near
    decide +kernel
  have follows := ((position_follows_iff {} {} []).1 line b spoken moves).1.mpr keeps
  have goal : ({} : State).goal b = ⟨1, 0, 0⟩ := by decide +kernel
  exact ⟨spoken, moves, follows.trans goal⟩

/-- Two steps of less than the tolerance each leave the tool where it was. -/
theorem small_steps_lost :
    let lines := ["G91", "G1 X0.00006", "G1 X0.00006"].map String.toList
    (Run.after {} {} lines 3).state.position = .origin ∧
      (Run.reckonedAfter {} lines 3).position = ⟨1.2e-4, 0, 0⟩ ∧
      (Run.after {} {} lines 3).state.position ≠ (Run.reckonedAfter {} lines 3).position := by
  decide +kernel

end Toolpath.Program

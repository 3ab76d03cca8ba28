import Toolpath.Proofs.Arc.Closed
import Toolpath.Proofs.Program.DeadReckoning

/-!
# Motions that lead nowhere

A motion to where the tool already is leaves no trace in the toolpath, unless it opens the program or is a
full circle. Whether it may be a circle is decided by its offset words, but the circle itself also depends on
the radius word and on rounding. `zero_length_trace_iff` says that the two fall apart for an arc that
`State.Collapses`, and nowhere else.
-/

namespace Toolpath.Program

namespace State

/-- The block is an arc about a centre away from its start, but the circle that it resolves to is none: its
radius is too small or not finite. -/
structure Collapses (s : State) (b : Block) : Prop where
  moves : b.setsOrigin = false
  degenerate : ∃ turn offset, (s.withModes b).motionOf b = some (.arc turn) ∧
    b.offset? (s.withModes b).plane = some offset ∧ Arc.leastRadius ≤ Single.hypot offset.1 offset.2 ∧
    Arc.Circle.isProper (((s.withModes b).arc b turn).offsetCircle offset) = false

/-- The block is the rapid that opens the program. -/
structure Opens (s : State) (b : Block) : Prop where
  motion : (s.withModes b).motionOf b = some .rapid
  opening : (s.withModes b).isOpeningRapid .rapid = true

/-- The effect is that of a full circle: one arc, with points on a proper circle. -/
structure DrawsCircle (settings : ArcSettings) (s : State) (b : Block) (effect : Effect) : Prop where
  arcs : effect.arcs = 1
  circle : ∃ turn c sweep, (s.withModes b).motionOf b = some (.arc turn) ∧
    ((s.withModes b).arc b turn).properCircle? = some c ∧
    ((s.withModes b).arc b turn).sweep? = some sweep ∧ Arc.IsFullTurn turn sweep ∧
    effect.waypoints =
      (((s.withModes b).arc b turn).interior settings c sweep ++ [s.goal b]).map fun p => ⟨p, false⟩

variable {s : State} {b : Block}

theorem namesCentre_iff (s : State) (b : Block) (m : Motion) :
    s.namesCentre b m = true ↔ ∃ turn offset, m = .arc turn ∧ b.offset? s.plane = some offset ∧
      Arc.leastRadius ≤ Single.hypot offset.1 offset.2 := by
  cases m with
  | rapid | linear => simp [namesCentre, Motion.turn?]
  | arc turn => cases named : b.offset? s.plane <;> simp [namesCentre, Motion.turn?, named]

theorem arc_effect (settings : ArcSettings) (fresh : Bool) (s : State) (b : Block) (turn : Turn) :
    (s.withModes b).motionEffect settings fresh b (.arc turn) =
      { waypoints := (((s.withModes b).arc b turn).between settings ++ [s.goal b]).map fun p => ⟨p, false⟩
        arcs := 1
        reported := (((s.withModes b).arc b turn).between settings).length + 1 } := by
  simp only [motionEffect, Arc.points_tail, Arc.length_points]
  rfl

theorem arc_of_collapses (collapses : s.Collapses b) :
    ∃ turn, (s.withModes b).motionOf b = some (.arc turn) ∧ (s.withModes b).namesCentre b (.arc turn) = true ∧
      ((s.withModes b).arc b turn).properCircle? = none := by
  obtain ⟨_, turn, offset, motion, named, away, improper⟩ := collapses
  refine ⟨turn, motion, (namesCentre_iff _ b _).mpr ⟨turn, offset, rfl, named, away⟩, ?_⟩
  rw [Arc.properCircle?_of_offset named, Option.filter_some, if_neg (by simp [improper])]

theorem not_opens_of_collapses (collapses : s.Collapses b) : ¬ s.Opens b := by
  obtain ⟨turn, motion, _⟩ := arc_of_collapses collapses
  intro opens
  cases motion.symm.trans opens.motion

theorem not_drawsCircle_of_collapses {settings : ArcSettings} {effect : Effect} (collapses : s.Collapses b) :
    ¬ s.DrawsCircle settings b effect := by
  obtain ⟨turn, motion, _, improper⟩ := arc_of_collapses collapses
  rintro ⟨_, other, c, sweep, asked, proper, _⟩
  cases motion.symm.trans asked
  cases improper.symm.trans proper

/-- An arc that collapses is drawn as a straight cut from the tool to its goal. -/
theorem effect_of_collapses (settings : ArcSettings) (fresh : Bool) (collapses : s.Collapses b) :
    (s.step settings fresh b).2 = { waypoints := [⟨s.goal b, false⟩], arcs := 1, reported := 1 } := by
  have moves := collapses.moves
  obtain ⟨turn, motion, centred, improper⟩ := arc_of_collapses collapses
  cases stepCase s b with
  | origin sets _ => simp [moves] at sets
  | modes _ still _ => simp [motion] at still
  | idle m _ asked idle _ =>
    obtain rfl : Motion.arc turn = m := Option.some.inj (motion.symm.trans asked)
    have ignored := ((isIdle_eq_true_iff s b _).mp idle).2.2
    simp [centred] at ignored
  | move m _ asked _ eq =>
    obtain rfl : Motion.arc turn = m := Option.some.inj (motion.symm.trans asked)
    rw [eq, arc_effect, Arc.between_of_improper settings improper]
    rfl

/-- The offset words of an arc that comes back to its start and does not collapse name a circle to draw. -/
theorem drawsCircle_of_namesCentre (settings : ArcSettings) (fresh : Bool) {m : Motion}
    (moves : b.setsOrigin = false) (motion : (s.withModes b).motionOf b = some m)
    (near : s.position.coincides (s.goal b) = true) (centred : (s.withModes b).namesCentre b m = true)
    (holds : ¬ s.Collapses b) :
    s.DrawsCircle settings b ((s.withModes b).motionEffect settings fresh b m) := by
  obtain ⟨turn, offset, rfl, named, away⟩ := (namesCentre_iff (s.withModes b) b m).mp centred
  have proper : Arc.Circle.isProper (((s.withModes b).arc b turn).offsetCircle offset) = true := by
    by_contra improper
    exact holds ⟨moves, turn, offset, motion, named, away, Bool.eq_false_iff.mpr improper⟩
  have closed : ((s.withModes b).arc b turn).closesInPlane = true := Arc.closesInPlane_of_coincides near
  have circle : ((s.withModes b).arc b turn).properCircle? =
      some (((s.withModes b).arc b turn).offsetCircle offset) := by
    rw [Arc.properCircle?_of_offset named, Option.filter_some, if_pos proper]
  obtain ⟨sweep, turns, full⟩ := Arc.sweepAround_of_closed closed (((s.withModes b).arc b turn).offsetCircle offset)
  have swept : ((s.withModes b).arc b turn).sweep? = some sweep := by
    rw [Arc.sweep?, circle, Option.bind_some, turns]
  rw [arc_effect, Arc.between_of_sweep settings circle turns]
  exact ⟨rfl, turn, _, sweep, motion, circle, swept, full, rfl⟩

theorem effect_of_near (settings : ArcSettings) (fresh : Bool) (near : s.position.coincides (s.goal b) = true)
    (holds : ¬ s.Collapses b) :
    (s.step settings fresh b).2 = {} ∨ s.Opens b ∨ s.DrawsCircle settings b (s.step settings fresh b).2 := by
  cases stepCase s b with
  | origin _ eq | modes _ _ eq | idle _ _ _ _ eq => rw [eq]; exact Or.inl rfl
  | move m moves motion busy eq =>
    rw [eq]
    refine Or.inr ?_
    by_cases opening : (s.withModes b).isOpeningRapid m = true
    · obtain rfl : m = .rapid := by
        simp only [isOpeningRapid, Bool.and_eq_true, decide_eq_true_eq] at opening
        exact opening.2
      exact Or.inl ⟨motion, opening⟩
    · have centred : (s.withModes b).namesCentre b m = true := by
        by_contra off
        have idle := (isIdle_eq_true_iff s b m).mpr
          ⟨near, Bool.eq_false_iff.mpr opening, Bool.eq_false_iff.mpr off⟩
        simp [busy] at idle
      exact Or.inr (drawsCircle_of_namesCentre settings fresh moves motion near centred holds)

end State

namespace Run

variable (settings : ArcSettings) (run : Run) (line : List Char)

/-- The line adds neither points nor arcs to the toolpath. -/
def LeavesNoTrace : Prop := ∃ lines, (run.feed settings line).path = { run.path with lines := lines }

/-- The line adds a full circle to the toolpath. -/
def AddsCircle (b : Block) : Prop :=
  ∃ effect, run.state.DrawsCircle settings b effect ∧
    (run.feed settings line).path = (run.path.countLine.countArcs 1).append effect.waypoints

variable {settings run line}

theorem leavesNoTrace_of_silence (silent : block? line = none) : run.LeavesNoTrace settings line := by
  have nothing := Option.map_eq_none_iff.mp silent
  exact ⟨run.path.lines, by simp only [feed, nothing]⟩

theorem feed_path_of_block {b : Block} (settings : ArcSettings) (run : Run) (block : block? line = some b) :
    let effect := ((run.atLine (run.state.line + 1)).state.step settings run.path.isEmpty b).2
    (run.feed settings line).path = (run.path.countLine.countArcs effect.arcs).append effect.waypoints := by
  obtain ⟨code, reads, rfl⟩ := Option.map_eq_some_iff.mp block
  simp only [feed, reads]
  rfl

/-- The number of a line decides about nothing. -/
theorem collapses_atLine (n : Nat) (b : Block) : (run.atLine n).state.Collapses b ↔ run.state.Collapses b :=
  ⟨fun c => ⟨c.moves, c.degenerate⟩, fun c => ⟨c.moves, c.degenerate⟩⟩

theorem feed_of_collapses {b : Block} (block : block? line = some b) (collapses : run.state.Collapses b) :
    (run.feed settings line).path = (run.path.countLine.countArcs 1).push ⟨run.state.goal b, false⟩ := by
  have effect := State.effect_of_collapses settings run.path.isEmpty
    ((collapses_atLine (run.state.line + 1) b).mpr collapses)
  rw [feed_path_of_block settings run block, effect]
  rfl

theorem not_leavesNoTrace_of_collapses {b : Block} (block : block? line = some b)
    (collapses : run.state.Collapses b) : ¬ run.LeavesNoTrace settings line := by
  rintro ⟨lines, same⟩
  rw [feed_of_collapses block collapses] at same
  have arcs : run.path.arcs + 1 = run.path.arcs :=
    (Builder.counts_push _ _).2.symm.trans (congrArg Builder.arcs same)
  omega

theorem feed_of_near {b : Block} (block : block? line = some b)
    (near : run.state.position.coincides (run.state.goal b) = true) (holds : ¬ run.state.Collapses b) :
    run.LeavesNoTrace settings line ∨ run.state.Opens b ∨ run.AddsCircle settings line b := by
  have path := feed_path_of_block settings run block
  have apart := mt (collapses_atLine (run.state.line + 1) b).mp holds
  have nearStill : (run.atLine (run.state.line + 1)).state.position.coincides
      ((run.atLine (run.state.line + 1)).state.goal b) = true := near
  dsimp only at path
  rcases State.effect_of_near settings run.path.isEmpty nearStill apart with nothing | opens | circle
  · rw [nothing] at path
    exact Or.inl ⟨run.path.lines + 1, path⟩
  · exact Or.inr (Or.inl ⟨opens.motion, opens.opening⟩)
  · rw [circle.arcs] at path
    exact Or.inr (Or.inr ⟨_, ⟨circle.arcs, circle.circle⟩, path⟩)

end Run

/-- A line whose goal is where the tool already is leaves no trace, opens the program or adds a full circle,
exactly when it is not an arc that collapses. An arc that does adds a cut from the tool to where it is. -/
theorem zero_length_trace_iff (settings : ArcSettings) (run : Run) (line : List Char) :
    (block? line = none → run.LeavesNoTrace settings line) ∧
      ∀ b, block? line = some b → run.state.position.coincides (run.state.goal b) = true →
        ((run.LeavesNoTrace settings line ∨ run.state.Opens b ∨ run.AddsCircle settings line b) ↔
          ¬ run.state.Collapses b) ∧
        (run.state.Collapses b →
          (run.feed settings line).path = (run.path.countLine.countArcs 1).push ⟨run.state.goal b, false⟩) := by
  refine ⟨Run.leavesNoTrace_of_silence, ?_⟩
  intro b block near
  refine ⟨⟨?_, Run.feed_of_near block near⟩, Run.feed_of_collapses block⟩
  rintro (nothing | opens | ⟨_, circle, _⟩) collapses
  · exact Run.not_leavesNoTrace_of_collapses block collapses nothing
  · exact State.not_opens_of_collapses collapses opens
  · exact State.not_drawsCircle_of_collapses collapses circle

/-- Once round a circle of radius five. -/
theorem full_turn_traced :
    let run := Run.feed {} {} "G1 X5".toList
    let line := "G2 I-5".toList
    let b : Block := { motion := some (.arc .clockwise), i := some (-5) }
    block? line = some b ∧ run.state.position.coincides (run.state.goal b) = true ∧
      (run.LeavesNoTrace {} line ∨ run.state.Opens b ∨ run.AddsCircle {} line b) := by
  intro run line b
  have block : block? line = some b := by decide +kernel
  have near : run.state.position.coincides (run.state.goal b) = true := by decide +kernel
  have holds : ¬ run.state.Collapses b := by
    rintro ⟨_, turn, offset, motion, named, _, improper⟩
    have clockwise : (run.state.withModes b).motionOf b = some (.arc .clockwise) := by decide +kernel
    have centre : b.offset? (run.state.withModes b).plane = some (-5, 0) := by decide +kernel
    cases clockwise.symm.trans motion
    cases centre.symm.trans named
    revert improper
    decide +kernel
  exact ⟨block, near, ((zero_length_trace_iff {} run line).2 b block near).1.mpr holds⟩

/-- An arc about a proper centre with a radius word of zero cuts where the tool travels through, and its
travel falls apart into two segments. -/
theorem radius_word_cuts_travel :
    let run := Run.feed {} {} "G0 X5".toList
    let line := "G2 X5 I-5 J0 R0".toList
    let b : Block := { motion := some (.arc .clockwise), x := some 5, i := some (-5), j := some 0, r := some 0 }
    block? line = some b ∧ run.state.position.coincides (run.state.goal b) = true ∧
      ¬ (run.LeavesNoTrace {} line ∨ run.state.Opens b ∨ run.AddsCircle {} line b) ∧
      ((run.feed {} line).feed {} "G0 X9".toList).path.finish.segments.map Segment.travel = [true, false, true] := by
  intro run line b
  have block : block? line = some b := by decide +kernel
  have near : run.state.position.coincides (run.state.goal b) = true := by decide +kernel
  have motion : (run.state.withModes b).motionOf b = some (.arc .clockwise) := by decide +kernel
  have centre : b.offset? (run.state.withModes b).plane = some (-5, 0) := by decide +kernel
  have away : Arc.leastRadius ≤ Single.hypot (-5) 0 := by decide +kernel
  have pointlike : Arc.Circle.isProper (((run.state.withModes b).arc b .clockwise).offsetCircle (-5, 0)) = false := by
    decide +kernel
  have collapses : run.state.Collapses b := ⟨rfl, _, _, motion, centre, away, pointlike⟩
  refine ⟨block, near, ?_, by decide +kernel⟩
  rintro (nothing | opens | ⟨_, circle, _⟩)
  · exact Run.not_leavesNoTrace_of_collapses block collapses nothing
  · exact State.not_opens_of_collapses collapses opens
  · exact State.not_drawsCircle_of_collapses collapses circle

end Toolpath.Program

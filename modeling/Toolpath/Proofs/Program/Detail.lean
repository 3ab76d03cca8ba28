import Toolpath.Proofs.Path.Frame
import Toolpath.Proofs.Program.Step

/-!
# Detail settings and the course of a program

The settings say how finely an arc is drawn. `parallel_run` says that they decide about nothing else: two
runs of one program under different settings stay in the same state line by line, and their toolpaths
differ in the inner points of their arcs alone.
-/

namespace Toolpath

theorem Builder.waypoints_finish {b : Builder} {ws : List Waypoint} (holds : b.Holds ws) :
    b.finish.waypoints = ws := by
  obtain ⟨points, flags, _⟩ := finish_of_holds holds
  simp only [Document.waypoints, points, flags, List.zipWith_map, List.zipWith_self, List.map_id']

namespace Program

/-- Two runs that differ in nothing but the inner points of their arcs. -/
structure Run.Parallel (s t : ArcSettings) (r q : Run) : Prop where
  state : r.state = q.state
  lines : r.path.lines = q.path.lines
  arcs : r.path.arcs = q.path.arcs
  course : ∃ ws vs, r.path.Holds ws ∧ q.path.Holds vs ∧ SameCourse s t ws vs

namespace State

variable (s t : ArcSettings) (fresh : Bool) (state : State) (b : Block)

theorem motionEffect_arcs (m : Motion) :
    (state.motionEffect s fresh b m).arcs = (state.motionEffect t fresh b m).arcs := by
  cases m <;> rfl

theorem motionEffect_course (m : Motion) :
    SameCourse s t (state.motionEffect s fresh b m).waypoints (state.motionEffect t fresh b m).waypoints := by
  cases m with
  | rapid =>
    cases fresh with
    | true => exact .straight _ (.straight _ .nil)
    | false => exact .straight _ .nil
  | linear => exact .straight _ .nil
  | arc turn =>
    have traced := SameCourse.around (s := s) (t := t) (state.arc b turn) .nil
    rwa [List.append_nil, List.append_nil] at traced

theorem step_state : (state.step s fresh b).1 = (state.step t fresh b).1 := by
  cases stepCase state b with
  | origin _ eq | modes _ _ eq | idle _ _ _ _ eq | move _ _ _ _ eq => rw [eq, eq]

theorem step_arcs : (state.step s fresh b).2.arcs = (state.step t fresh b).2.arcs := by
  cases stepCase state b with
  | origin _ eq | modes _ _ eq | idle _ _ _ _ eq => rw [eq, eq]
  | move m _ _ _ eq => rw [eq, eq]; exact motionEffect_arcs s t fresh _ b m

theorem step_course :
    SameCourse s t (state.step s fresh b).2.waypoints (state.step t fresh b).2.waypoints := by
  cases stepCase state b with
  | origin _ eq | modes _ _ eq | idle _ _ _ _ eq => rw [eq, eq]; exact .nil
  | move m _ _ _ eq => rw [eq, eq]; exact motionEffect_course s t fresh _ b m

end State

namespace Run

variable {s t : ArcSettings} {r q : Run}

theorem parallel_atLine (n : Nat) (parallel : Parallel s t r q) :
    Parallel s t (r.atLine n) (q.atLine n) :=
  ⟨by rw [atLine, atLine, parallel.state], parallel.lines, parallel.arcs, parallel.course⟩

/-- The settings cannot leak into the next line: it finds the same state, and both toolpaths are empty or
neither is. -/
theorem parallel_interpret (code : List Char) (parallel : Parallel s t r q) :
    Parallel s t (r.interpret s code) (q.interpret t code) := by
  obtain ⟨state, lines, arcs, ws, vs, holds, others, course⟩ := parallel
  have fresh : r.path.isEmpty = q.path.isEmpty := by
    rw [Builder.isEmpty_of_holds holds, Builder.isEmpty_of_holds others, course.isEmpty_eq]
  refine ⟨?_, ?_, ?_, _, _, holds_interpret s holds code, holds_interpret t others code, ?_⟩
  · rw [interpret_state, interpret_state, state, fresh]
    exact State.step_state ..
  · rw [interpret_lines, interpret_lines, lines]
  · rw [interpret_arcs, interpret_arcs, state, fresh, arcs, State.step_arcs s t]
  · rw [state, course.isEmpty_eq]
    exact course.append (State.step_course ..)

end Run

theorem parallel_run (s t : ArcSettings) (text : List Char) :
    Run.Parallel s t (run s text) (run t text) := by
  unfold run
  generalize interpretableLines text = lines
  suffices folded : ∀ r q, Run.Parallel s t r q →
      Run.Parallel s t (lines.foldl (Run.interpretNumbered s) r) (lines.foldl (Run.interpretNumbered t) q) from
    folded {} {} ⟨rfl, rfl, rfl, [], [], Builder.holds_empty, Builder.holds_empty, .nil⟩
  induction lines with
  | nil => exact fun r q parallel => parallel
  | cons line lines ih =>
    exact fun r q parallel =>
      ih _ _ (Run.parallel_interpret line.2 (Run.parallel_atLine line.1 parallel))

theorem Run.Parallel.documents {s t : ArcSettings} {r q : Run} (parallel : Parallel s t r q) :
    r.path.finish.lines = q.path.finish.lines ∧ r.path.finish.arcs = q.path.finish.arcs ∧
      Segment.SameFrame r.path.finish.segments q.path.finish.segments ∧
      SameCourse s t r.path.finish.waypoints q.path.finish.waypoints := by
  obtain ⟨_, lines, arcs, ws, vs, holds, others, course⟩ := parallel
  have frame := Segment.sameFrame_runs course
  rw [← (Builder.finish_of_holds holds).2.2.2, ← (Builder.finish_of_holds others).2.2.2] at frame
  rw [Builder.waypoints_finish holds, Builder.waypoints_finish others]
  exact ⟨lines, arcs, frame, course⟩

end Program

/-- Settings never change where the tool goes: the final state, the counts and the frame of the segments
are those of any other settings, and the streams differ only inside of arcs. -/
theorem Document.sameFrame_ofProgram (s t : ArcSettings) (text : String) :
    let d := Document.ofProgram s text
    let e := Document.ofProgram t text
    (Program.run s text.toList).state = (Program.run t text.toList).state ∧
      d.lines = e.lines ∧ d.arcs = e.arcs ∧ Segment.SameFrame d.segments e.segments ∧
      SameCourse s t d.waypoints e.waypoints := by
  have parallel := Program.parallel_run s t text.toList
  exact ⟨parallel.state, parallel.documents⟩

end Toolpath

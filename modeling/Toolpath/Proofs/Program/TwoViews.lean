import Toolpath.Proofs.Path.Runs
import Toolpath.Proofs.Program.Step

/-!
# Two views of one toolpath

A document holds its toolpath as flat streams and as segments. `coherent_ofProgram` says that the two
agree for every program. That a travel segment always has an edge rests on the rapid that opens an empty
toolpath: it adds the position it starts from.
-/

namespace Toolpath

/-- The flat streams and the segments of a document describe one toolpath. -/
structure Document.Coherent (d : Document) : Prop where
  flags : d.travelFlags.length = d.points.length
  heights : d.zValues = d.points.map Position.z
  laid : Segment.WellLaid d.segments
  positions : (Segment.layOut d.segments).map Waypoint.position = d.points
  kinds : (Segment.layOut d.segments).map Waypoint.travel = d.travelFlags
  travels : ∀ s ∈ d.segments, s.travel = true → 2 ≤ s.length

theorem Builder.coherent_finish {b : Builder} {ws : List Waypoint} (holds : b.Holds ws)
    (opens : Segment.OpensWithEdge ws) : b.finish.Coherent := by
  obtain ⟨points, flags, heights, segments⟩ := finish_of_holds holds
  exact
    { flags := by rw [flags, points, List.length_map, List.length_map]
      heights := by rw [heights, points, List.map_map]; rfl
      laid := by rw [segments]; exact Segment.wellLaid_runs ws
      positions := by rw [segments, points, Segment.layOut_runs]
      kinds := by rw [segments, flags, Segment.layOut_runs]
      travels := by rw [segments]; exact Segment.two_le_length_of_travel opens }

namespace Program

namespace State

theorem opensWithEdge_motionEffect (settings : ArcSettings) (s : State) (b : Block) (m : Motion) :
    Segment.OpensWithEdge (s.motionEffect settings true b m).waypoints := by
  cases m with
  | rapid => exact fun travels => travels
  | linear => rfl
  | arc turn =>
    apply Segment.opensWithEdge_of_cutting
    intro w member
    obtain ⟨p, _, rfl⟩ := List.mem_map.mp member
    rfl

theorem opensWithEdge_step (settings : ArcSettings) (s : State) (b : Block) :
    Segment.OpensWithEdge (s.step settings true b).2.waypoints := by
  cases stepCase s b with
  | origin _ eq => rw [eq]; trivial
  | modes _ _ eq => rw [eq]; trivial
  | idle m _ _ _ eq => rw [eq]; trivial
  | move m _ _ _ eq => rw [eq]; exact opensWithEdge_motionEffect settings _ b m

end State

/-- Only the first waypoints of a toolpath decide whether it opens with an edge. -/
theorem opensWithEdge_interpret (settings : ArcSettings) (s : State) (b : Block) {ws : List Waypoint}
    (opens : Segment.OpensWithEdge ws) :
    Segment.OpensWithEdge (ws ++ (s.step settings ws.isEmpty b).2.waypoints) := by
  cases ws with
  | nil => exact State.opensWithEdge_step settings s b
  | cons w ws => exact Segment.opensWithEdge_append _ (List.cons_ne_nil w ws) opens

theorem opensWithEdge_run (settings : ArcSettings) (text : List Char) :
    ∃ ws, (run settings text).path.Holds ws ∧ Segment.OpensWithEdge ws := by
  refine run_induction (motive := fun r => ∃ ws, r.path.Holds ws ∧ Segment.OpensWithEdge ws) settings text
    ⟨[], Builder.holds_empty, trivial⟩ ?_
  rintro run n code ⟨ws, holds, opens⟩
  have numbered : (run.atLine n).path.Holds ws := holds
  exact ⟨_, Run.holds_interpret settings numbered code, opensWithEdge_interpret settings _ _ opens⟩

end Program

/-- For every program, its segments alternate, share their ends, have an edge each save for a cutting
one that opens the toolpath, and laid end to end are the flat streams. -/
theorem Document.coherent_ofProgram (settings : ArcSettings) (text : String) :
    (Document.ofProgram settings text).Coherent := by
  obtain ⟨ws, holds, opens⟩ := Program.opensWithEdge_run settings text.toList
  exact Builder.coherent_finish holds opens

end Toolpath

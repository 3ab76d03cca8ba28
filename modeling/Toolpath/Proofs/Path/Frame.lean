import Toolpath.Proofs.Arc.Ends
import Toolpath.Proofs.Path.Runs

/-!
# Toolpaths drawn with different settings

`SameCourse` relates two streams of waypoints that go the same way, each with its own points on the arcs.
`sameFrame_runs` says that the segments of such streams agree in everything but their inner points and the
point that the first one starts from.
-/

namespace Toolpath

def Arc.trace (settings : ArcSettings) (arc : Arc) : List Waypoint :=
  (arc.points settings).tail.map fun p => ⟨p, false⟩

theorem Arc.trace_eq (settings : ArcSettings) (arc : Arc) :
    arc.trace settings = (arc.between settings).map (fun p => ⟨p, false⟩) ++ [⟨arc.finish, false⟩] := by
  rw [Arc.trace, Arc.points_tail, List.map_append, List.map_singleton]

/-- Two streams over the same straight moves and the same arcs, each arc drawn with the settings of its
side. -/
inductive SameCourse (s t : ArcSettings) : List Waypoint → List Waypoint → Prop where
  | nil : SameCourse s t [] []
  | straight (w : Waypoint) {ws vs : List Waypoint} (later : SameCourse s t ws vs) :
      SameCourse s t (w :: ws) (w :: vs)
  | around (arc : Arc) {ws vs : List Waypoint} (later : SameCourse s t ws vs) :
      SameCourse s t (arc.trace s ++ ws) (arc.trace t ++ vs)

namespace SameCourse

variable {s t : ArcSettings} {ws vs xs ys : List Waypoint}

theorem append (first : SameCourse s t ws vs) (second : SameCourse s t xs ys) :
    SameCourse s t (ws ++ xs) (vs ++ ys) := by
  induction first with
  | nil => exact second
  | straight w _ ih => exact .straight w ih
  | around arc _ ih =>
    rw [List.append_assoc, List.append_assoc]
    exact .around arc ih

theorem eq_nil_iff (same : SameCourse s t ws vs) : ws = [] ↔ vs = [] := by
  cases same with
  | nil => simp
  | straight w _ => simp
  | around arc _ => simp [Arc.trace_eq]

theorem isEmpty_eq (same : SameCourse s t ws vs) : ws.isEmpty = vs.isEmpty := by
  rw [Bool.eq_iff_iff, List.isEmpty_iff, List.isEmpty_iff]
  exact same.eq_nil_iff

end SameCourse

namespace Segment

/-- The segments agree in number, in kind, in where each ends and in where each after the first starts. -/
structure SameFrame (ss ts : List Segment) : Prop where
  kinds : ss.map travel = ts.map travel
  ends : ss.map (fun s => s.points.getLast?) = ts.map fun s => s.points.getLast?
  starts : ss.tail.map (fun s => s.points.head?) = ts.tail.map fun s => s.points.head?

theorem SameFrame.symm {ss ts : List Segment} (frame : SameFrame ss ts) : SameFrame ts ss :=
  ⟨frame.kinds.symm, frame.ends.symm, frame.starts.symm⟩

theorem SameFrame.trans {ss ts us : List Segment} (first : SameFrame ss ts) (second : SameFrame ts us) :
    SameFrame ss us :=
  ⟨first.kinds.trans second.kinds, first.ends.trans second.ends, first.starts.trans second.starts⟩

theorem sameFrame_consRun (w : Waypoint) {ss ts : List Segment} (frame : SameFrame ss ts) :
    SameFrame (consRun w ss) (consRun w ts) := by
  obtain ⟨kinds, ends, starts⟩ := frame
  cases ss with
  | nil =>
    have empty : ts = [] := List.map_eq_nil_iff.mp kinds.symm
    rw [empty]
    exact ⟨rfl, rfl, rfl⟩
  | cons s later =>
    cases ts with
    | nil => cases kinds
    | cons t rest =>
      simp only [List.map_cons, List.cons.injEq, List.tail_cons] at kinds ends starts
      by_cases same : s.travel = w.travel
      · rw [consRun_same same, consRun_same (kinds.1.symm.trans same)]
        exact ⟨by simp [kinds], by simp [List.getLast?_cons, ends], by simpa using starts⟩
      · have other : t.travel ≠ w.travel := fun equal => same (kinds.1.trans equal)
        rw [consRun_other same, consRun_other other]
        exact ⟨by simp [kinds], by simp [List.getLast?_cons, ends], by simpa using starts⟩

/-- A waypoint of the kind of the first segment only moves the start of that segment. -/
theorem sameFrame_extend {w v : Waypoint} (kind : w.travel = v.travel) (ws : List Waypoint) :
    SameFrame (runs (w :: v :: ws)) (runs (v :: ws)) := by
  obtain ⟨s, later, split, first, start⟩ := head_consRun v (runs ws)
  rw [runs_cons w, runs_cons v, split, consRun_same (first.trans kind.symm)]
  refine ⟨rfl, ?_, rfl⟩
  have whole : s.points ≠ [] := by
    intro empty
    simp [empty] at start
  simp [List.getLast?_cons, List.getLast?_eq_some_getLast whole]

theorem sameFrame_cut (ps : List Position) (p : Position) (ws : List Waypoint) :
    SameFrame (runs (ps.map (fun q => ⟨q, false⟩) ++ ⟨p, false⟩ :: ws)) (runs (⟨p, false⟩ :: ws)) := by
  induction ps with
  | nil => exact ⟨rfl, rfl, rfl⟩
  | cons q ps ih =>
    refine SameFrame.trans ?_ ih
    cases ps with
    | nil => exact sameFrame_extend (w := ⟨q, false⟩) (v := ⟨p, false⟩) rfl ws
    | cons r ps => exact sameFrame_extend (w := ⟨q, false⟩) (v := ⟨r, false⟩) rfl _

theorem sameFrame_trace (settings : ArcSettings) (arc : Arc) (ws : List Waypoint) :
    SameFrame (runs (arc.trace settings ++ ws)) (runs (⟨arc.finish, false⟩ :: ws)) := by
  rw [Arc.trace_eq, List.append_assoc]
  exact sameFrame_cut _ _ ws

theorem sameFrame_runs {s t : ArcSettings} {ws vs : List Waypoint} (same : SameCourse s t ws vs) :
    SameFrame (runs ws) (runs vs) := by
  induction same with
  | nil => exact ⟨rfl, rfl, rfl⟩
  | straight w _ ih => exact sameFrame_consRun w ih
  | around arc _ ih =>
    have finish := sameFrame_consRun ⟨arc.finish, false⟩ ih
    exact (sameFrame_trace s arc _).trans (finish.trans (sameFrame_trace t arc _).symm)

end Segment

end Toolpath

import Mathlib.Data.List.Chain
import Toolpath.Path.Segment

/-!
# Laws of segments

`Segment.runs` cuts a whole stream of waypoints into segments. `wellLaid_runs` says how they hang
together: none is empty, neighbours are of different kinds and share a point, and every segment after the
first has an edge of its own. `layOut_runs` says that nothing is lost: laid end to end, the segments are
the stream again.
-/

namespace Toolpath.Segment

/-- Puts a waypoint before the segments of the stream after it. -/
def consRun (w : Waypoint) : List Segment → List Segment
  | [] => [⟨[w.position], w.travel⟩]
  | s :: later =>
    if s.travel = w.travel then ⟨w.position :: s.points, s.travel⟩ :: later
    else ⟨[w.position], w.travel⟩ :: ⟨w.position :: s.points, s.travel⟩ :: later

/-- The segments of a stream of waypoints. -/
def runs (ws : List Waypoint) : List Segment := ws.foldr consRun []

@[simp] theorem runs_nil : runs [] = [] := rfl

@[simp] theorem runs_cons (w : Waypoint) (ws : List Waypoint) :
    runs (w :: ws) = consRun w (runs ws) := rfl

def waypoints (s : Segment) : List Waypoint := s.points.map fun p => ⟨p, s.travel⟩

/-- Segments laid end to end. The first point of each after the first is left out, because it is the
last point of the one before. -/
def layOut : List Segment → List Waypoint
  | [] => []
  | s :: later => s.waypoints ++ later.flatMap fun t => t.waypoints.tail

/-- The second segment begins where the first one ends and is of the other kind. -/
def Joins (s t : Segment) : Prop :=
  s.travel ≠ t.travel ∧ ∃ p, s.points.getLast? = some p ∧ t.points.head? = some p

/-- How the segments of one stream hang together. -/
structure WellLaid (ss : List Segment) : Prop where
  inhabited : ∀ s ∈ ss, s.points ≠ []
  joined : ss.IsChain Joins
  drawable : ∀ s ∈ ss.tail, 2 ≤ s.length

theorem consRun_same {w : Waypoint} {s : Segment} {later : List Segment} (same : s.travel = w.travel) :
    consRun w (s :: later) = ⟨w.position :: s.points, s.travel⟩ :: later := by
  simp [consRun, same]

theorem consRun_other {w : Waypoint} {s : Segment} {later : List Segment} (other : s.travel ≠ w.travel) :
    consRun w (s :: later) = ⟨[w.position], w.travel⟩ :: ⟨w.position :: s.points, s.travel⟩ :: later := by
  simp [consRun, other]

theorem head_consRun (w : Waypoint) (ss : List Segment) :
    ∃ s later, consRun w ss = s :: later ∧ s.travel = w.travel ∧ s.points.head? = some w.position := by
  cases ss with
  | nil => exact ⟨_, _, rfl, rfl, rfl⟩
  | cons s later =>
    by_cases same : s.travel = w.travel
    · exact ⟨_, _, consRun_same same, same, rfl⟩
    · exact ⟨_, _, consRun_other same, rfl, rfl⟩

/-! ### The segments hang together -/

theorem joins_extend {s t : Segment} (p : Position) (joins : Joins s t) :
    Joins ⟨p :: s.points, s.travel⟩ t := by
  obtain ⟨other, q, last, first⟩ := joins
  exact ⟨other, q, by simp [List.getLast?_cons, last], first⟩

theorem isChain_extend {s : Segment} {later : List Segment} (p : Position)
    (joined : (s :: later).IsChain Joins) : (⟨p :: s.points, s.travel⟩ :: later).IsChain Joins := by
  rw [List.isChain_cons] at joined ⊢
  exact ⟨fun t first => joins_extend p (joined.1 t first), joined.2⟩

theorem wellLaid_consRun (w : Waypoint) {ss : List Segment} (laid : WellLaid ss) :
    WellLaid (consRun w ss) := by
  obtain ⟨inhabited, joined, drawable⟩ := laid
  cases ss with
  | nil => exact ⟨by simp [consRun], by simp [consRun], by simp [consRun]⟩
  | cons s later =>
    have whole : s.points ≠ [] := inhabited s List.mem_cons_self
    have longer := isChain_extend w.position joined
    rw [List.tail_cons] at drawable
    by_cases same : s.travel = w.travel
    · rw [consRun_same same]
      refine ⟨?_, longer, drawable⟩
      intro t member
      rcases List.mem_cons.mp member with rfl | member
      · simp
      · exact inhabited t (List.mem_cons_of_mem _ member)
    · rw [consRun_other same]
      refine ⟨?_, ?_, ?_⟩
      · intro t member
        rcases List.mem_cons.mp member with rfl | member
        · simp
        · rcases List.mem_cons.mp member with rfl | member
          · simp
          · exact inhabited t (List.mem_cons_of_mem _ member)
      · exact List.isChain_cons_cons.mpr ⟨⟨Ne.symm same, w.position, rfl, rfl⟩, longer⟩
      · intro t member
        rcases List.mem_cons.mp member with rfl | member
        · have := List.length_pos_of_ne_nil whole
          simp only [length, List.length_cons]
          omega
        · exact drawable t member

theorem wellLaid_runs (ws : List Waypoint) : WellLaid (runs ws) := by
  induction ws with
  | nil => exact ⟨by simp, by simp, by simp⟩
  | cons w ws ih => exact wellLaid_consRun w ih

/-! ### Nothing is lost -/

theorem layOut_consRun (w : Waypoint) (ss : List Segment) : layOut (consRun w ss) = w :: layOut ss := by
  cases ss with
  | nil => rfl
  | cons s later =>
    by_cases same : s.travel = w.travel
    · rw [consRun_same same]
      simp [layOut, waypoints, same]
    · rw [consRun_other same]
      simp [layOut, waypoints]

theorem layOut_runs (ws : List Waypoint) : layOut (runs ws) = ws := by
  induction ws with
  | nil => rfl
  | cons w ws ih => rw [runs_cons, layOut_consRun, ih]

/-! ### The first segment of a stream -/

theorem runs_waypoints {s : Segment} (whole : s.points ≠ []) : runs s.waypoints = [s] := by
  obtain ⟨points, travel⟩ := s
  induction points with
  | nil => exact absurd rfl whole
  | cons p ps ih =>
    cases ps with
    | nil => rfl
    | cons q qs =>
      have later : runs (waypoints ⟨q :: qs, travel⟩) = [⟨q :: qs, travel⟩] := ih (List.cons_ne_nil q qs)
      change consRun ⟨p, travel⟩ (runs (waypoints ⟨q :: qs, travel⟩)) = _
      rw [later, consRun_same rfl]

/-- Where the kind changes, a segment is complete, and the rest starts over from its last point. -/
theorem runs_break {s : Segment} {w : Waypoint} {p : Position} (last : s.points.getLast? = some p)
    (other : s.travel ≠ w.travel) (ws : List Waypoint) :
    runs (s.waypoints ++ w :: ws) = s :: runs (⟨p, w.travel⟩ :: w :: ws) := by
  obtain ⟨t, rest, split, kind, _⟩ := head_consRun w (runs ws)
  have reopened : runs (⟨p, w.travel⟩ :: w :: ws) = ⟨p :: t.points, t.travel⟩ :: rest := by
    rw [runs_cons, runs_cons w, split, consRun_same (w := ⟨p, w.travel⟩) kind]
  rw [reopened]
  -- Only the last point of the segment meets the waypoint of the other kind; those before it pass the
  -- segment on.
  obtain ⟨points, travel⟩ := s
  induction points with
  | nil => cases last
  | cons q qs ih =>
    cases qs with
    | nil =>
      obtain rfl : q = p := Option.some.inj last
      have kinds : t.travel ≠ travel := fun same => other (same.symm.trans kind)
      change consRun ⟨q, travel⟩ (runs (w :: ws)) = _
      rw [runs_cons, split, consRun_other (w := ⟨q, travel⟩) kinds]
    | cons r rs =>
      have later := ih (by rwa [List.getLast?_cons_cons] at last) other
      change consRun ⟨q, travel⟩ (runs (waypoints ⟨r :: rs, travel⟩ ++ w :: ws)) = _
      rw [later, consRun_same rfl]

/-! ### Streams that open with an edge -/

/-- A stream that opens by travelling has a second waypoint, also by travelling. -/
def OpensWithEdge : List Waypoint → Prop
  | [] => True
  | [w] => w.travel = false
  | w :: v :: _ => w.travel = true → v.travel = true

theorem opensWithEdge_append {ws : List Waypoint} (vs : List Waypoint) (begun : ws ≠ [])
    (opens : OpensWithEdge ws) : OpensWithEdge (ws ++ vs) := by
  match ws, vs with
  | [], _ => exact absurd rfl begun
  | [w], [] => exact opens
  | [w], v :: vs =>
    have cuts : w.travel = false := opens
    intro travels
    rw [cuts] at travels
    cases travels
  | _ :: _ :: _, _ => exact opens

theorem opensWithEdge_of_cutting {ws : List Waypoint} (cutting : ∀ w ∈ ws, w.travel = false) :
    OpensWithEdge ws := by
  match ws with
  | [] => trivial
  | [w] => exact cutting w List.mem_cons_self
  | w :: v :: _ =>
    intro travels
    rw [cutting w List.mem_cons_self] at travels
    cases travels

/-- When the stream opens with an edge, so does every travel segment, the first one included. -/
theorem two_le_length_of_travel {ws : List Waypoint} (opens : OpensWithEdge ws) :
    ∀ s ∈ runs ws, s.travel = true → 2 ≤ s.length := by
  intro s member travels
  -- All segments but the first have an edge in any stream.
  have later := (wellLaid_runs ws).drawable
  match ws with
  | [] => simp at member
  | [w] =>
    have cuts : w.travel = false := opens
    have only : s = ⟨[w.position], w.travel⟩ := by simpa [consRun] using member
    rw [only, cuts] at travels
    cases travels
  | w :: v :: ws =>
    obtain ⟨t, rest, split, kind, first⟩ := head_consRun v (runs ws)
    rw [runs_cons, runs_cons, split] at member later
    by_cases same : t.travel = w.travel
    · rw [consRun_same same] at member later
      rcases List.mem_cons.mp member with rfl | member
      · have : t.points ≠ [] := by
          intro empty
          simp [empty] at first
        have := List.length_pos_of_ne_nil this
        simp only [length, List.length_cons]
        omega
      · exact later s member
    · rw [consRun_other same] at member later
      rcases List.mem_cons.mp member with rfl | member
      · exact absurd (kind.trans ((opens travels).trans travels.symm)) same
      · exact later s member

end Toolpath.Segment

import Mathlib.Data.Bool.Count
import Toolpath.CommandLine.Run
import Toolpath.Proofs.Detail.Thinning
import Toolpath.Proofs.Program.TwoViews

/-!
# What a report says agrees

The numbers of a report are counted in different places: in the flat streams, in the segments, and in the simplified
segments that are drawn. They fit together because segments share their ends, alternate in kind, and keep both ends
when they are thinned.
-/

namespace Toolpath

/-! ### Points of segments -/

namespace Segment

variable {ss : List Segment}

/-- All segments but the first have an edge, and the first has a point. -/
structure Drawable (ss : List Segment) : Prop where
  pointed : ∀ s ∈ ss, 1 ≤ s.length
  edged : ∀ s ∈ ss.tail, 2 ≤ s.length

theorem drawable_of_wellLaid (laid : WellLaid ss) : Drawable ss :=
  ⟨fun s member => List.length_pos_of_ne_nil (laid.inhabited s member), laid.drawable⟩

theorem totalLength_of_inhabited (inhabited : ∀ s ∈ ss, s.points ≠ []) :
    totalLength ss = (ss.flatMap fun s => s.waypoints.tail).length + ss.length := by
  induction ss with
  | nil => rfl
  | cons s later step =>
    obtain ⟨some, rest⟩ := List.forall_mem_cons.mp inhabited
    have pos := List.length_pos_of_ne_nil some
    have shorter : s.waypoints.tail.length + 1 = s.length := by
      rw [List.length_tail, waypoints, List.length_map, length]
      omega
    rw [totalLength, step rest, List.flatMap_cons, List.length_append, List.length_cons]
    omega

/-- Segments repeat a point wherever one follows another. -/
theorem totalLength_runs (ws : List Waypoint) :
    totalLength (runs ws) = if ws = [] then 0 else ws.length + (runs ws).length - 1 := by
  have laid := wellLaid_runs ws
  have whole := layOut_runs ws
  cases segments : runs ws with
  | nil =>
    rw [segments] at whole
    rw [← whole]
    rfl
  | cons s later =>
    rw [segments] at laid whole
    obtain ⟨some, rest⟩ := List.forall_mem_cons.mp laid.inhabited
    have pos := List.length_pos_of_ne_nil some
    have shared := totalLength_of_inhabited rest
    have count := congrArg List.length whole
    rw [layOut, List.length_append, waypoints, List.length_map] at count
    have filled : ws ≠ [] := List.ne_nil_of_length_pos (by omega)
    rw [if_neg filled, totalLength, shared, length, List.length_cons]
    omega

theorem totalLength_of_edged (edged : ∀ s ∈ ss, 2 ≤ s.length) : 2 * ss.length ≤ totalLength ss := by
  induction ss with
  | nil => exact le_rfl
  | cons s later step =>
    obtain ⟨two, rest⟩ := List.forall_mem_cons.mp edged
    have := step rest
    rw [totalLength, List.length_cons]
    omega

theorem Drawable.totalLength (drawable : Drawable ss) : 2 * ss.length ≤ totalLength ss + 1 := by
  cases ss with
  | nil => exact Nat.zero_le _
  | cons s later =>
    have one := drawable.pointed s List.mem_cons_self
    have rest := totalLength_of_edged drawable.edged
    rw [Segment.totalLength, List.length_cons]
    rw [List.tail_cons] at rest
    omega

/-- Segments that alternate in kind have as many of either kind, or one more. -/
theorem alternating_counts (joined : ss.IsChain Joins) :
    ss.countP Segment.travel ≤ ss.countP (!·.travel) + 1 ∧ ss.countP (!·.travel) ≤ ss.countP Segment.travel + 1 := by
  have kinds : (ss.map Segment.travel).IsChain (· ≠ ·) := (List.isChain_map _).mpr (joined.imp fun _ _ => And.left)
  have travels : (ss.map Segment.travel).count true = ss.countP Segment.travel := by
    rw [List.count, List.countP_map]
    exact List.countP_congr fun s _ => by simp
  have cuts : (ss.map Segment.travel).count false = ss.countP (!·.travel) := by
    rw [List.count, List.countP_map]
    exact List.countP_congr fun s _ => by simp
  rw [← travels, ← cuts]
  exact ⟨kinds.count_true_le_count_false_add_one, kinds.count_false_le_count_true_add_one⟩

end Segment

/-! ### Simplified segments -/

namespace Detail

open Segment (Drawable)

variable {settings : DetailSettings} {budget : Nat} {ss : List Segment}

theorem two_le_length_thin (stride : Nat) {points : List Position} (two : 2 ≤ points.length) :
    2 ≤ (thin stride points).length := by
  match points with
  | [] | [_] => exact two
  | first :: second :: later =>
    rw [thin, List.cons_append, List.length_cons, List.length_append, List.length_singleton]
    omega

theorem two_le_length_simplifySegment (general : Nat) {s : Segment} (two : 2 ≤ s.length) :
    2 ≤ (simplifySegment settings general s).length := by
  by_cases short : s.length ≤ wholeLength
  · rwa [simplifySegment_of_short general short]
  · rw [simplifySegment_of_long general (Nat.not_le.mp short)]
    exact two_le_length_thin _ two

theorem one_le_length_simplifySegment (general : Nat) {s : Segment} (one : 1 ≤ s.length) :
    1 ≤ (simplifySegment settings general s).length := by
  by_cases short : s.length ≤ wholeLength
  · rwa [simplifySegment_of_short general short]
  · have long := Nat.not_le.mp short
    exact Nat.le_of_succ_le (two_le_length_simplifySegment general ((by decide : 2 ≤ wholeLength).trans long.le))

theorem drawable_simplify (settings : DetailSettings) (budget : Nat) (drawable : Drawable ss) :
    Drawable (simplify settings budget ss) := by
  by_cases exceeds : Overfull settings budget ss
  · rw [simplify_of_overfull exceeds]
    constructor
    · intro t member
      obtain ⟨s, origin, rfl⟩ := List.mem_map.mp member
      exact one_le_length_simplifySegment _ (drawable.pointed s origin)
    · intro t member
      rw [← List.map_tail] at member
      obtain ⟨s, origin, rfl⟩ := List.mem_map.mp member
      exact two_le_length_simplifySegment _ (drawable.edged s origin)
  · rwa [simplify_of_not_overfull exceeds]

theorem length_simplify (settings : DetailSettings) (budget : Nat) (ss : List Segment) :
    (simplify settings budget ss).length = ss.length :=
  (reduced_simplify settings budget ss).length_eq.symm

end Detail

/-! ### The report -/

namespace Document

variable (settings : ArcSettings) (text : String)

/-- One stream of waypoints lies behind all that a document counts. -/
theorem exists_waypoints : ∃ ws,
    (ofProgram settings text).points = ws.map Waypoint.position ∧
      (ofProgram settings text).travelFlags = ws.map Waypoint.travel ∧
      (ofProgram settings text).segments = Segment.runs ws := by
  obtain ⟨ws, holds, -⟩ := Program.opensWithEdge_run settings text.toList
  obtain ⟨points, flags, -, segments⟩ := Builder.finish_of_holds holds
  exact ⟨ws, points, flags, segments⟩

theorem wellLaid_segments : Segment.WellLaid (ofProgram settings text).segments := by
  obtain ⟨ws, -, -, segments⟩ := exists_waypoints settings text
  exact segments ▸ Segment.wellLaid_runs ws

/-- Every point has a flag. -/
theorem count_travelFlags : (ofProgram settings text).travelFlags.count true
    + (ofProgram settings text).travelFlags.count false = (ofProgram settings text).points.length := by
  obtain ⟨ws, points, flags, -⟩ := exists_waypoints settings text
  rw [List.count_true_add_count_false, flags, points, List.length_map, List.length_map]

/-- Every segment after the first repeats a point. -/
theorem totalLength_segments : Segment.totalLength (ofProgram settings text).segments =
    if (ofProgram settings text).points = [] then 0
    else (ofProgram settings text).points.length + (ofProgram settings text).segments.length - 1 := by
  obtain ⟨ws, points, -, segments⟩ := exists_waypoints settings text
  rw [points, List.length_map, segments, Segment.totalLength_runs]
  simp only [List.map_eq_nil_iff]

theorem filtered_all (d : Document) : d.filtered .all = d.segments := List.filter_eq_self.mpr fun _ _ => rfl

end Document

namespace Report

open Segment (drawable_of_wellLaid totalLength)

/-- The numbers of a report at a zoom are those of the document, and they fit together. -/
structure AddsUp (d : Document) (settings : DetailSettings) (zoom : Float32) (r : Report) : Prop where
  total : r.stats.totalPoints = d.points.length
  travelPoints : r.stats.travelPoints = d.travelFlags.count true
  cuttingPoints : r.stats.cuttingPoints = d.travelFlags.count false
  points : r.stats.travelPoints + r.stats.cuttingPoints = r.stats.totalPoints
  travelSegments : r.stats.travelSegments = d.segments.countP Segment.travel
  cuttingSegments : r.stats.cuttingSegments = d.segments.countP (!·.travel)
  kinds : r.stats.travelSegments ≤ r.stats.cuttingSegments + 1 ∧ r.stats.cuttingSegments ≤ r.stats.travelSegments + 1
  segments : r.detail.segments = d.segments.length
  bothKinds : r.detail.segments = r.stats.travelSegments + r.stats.cuttingSegments
  /-- Every segment after the first repeats a point. -/
  before : r.detail.pointsBefore = if d.points = [] then 0 else r.stats.totalPoints + r.detail.segments - 1
  budget : r.detail.budget = (Level.ofZoom zoom).budget settings.pointBudget.toNat
  drawn : r.detail.pointsAfter = totalLength (Detail.simplify settings r.detail.budget d.segments)
  after : r.detail.pointsAfter ≤ r.detail.pointsBefore
  whole : settings.enabled = false ∨ r.detail.budget = 0 ∨ r.detail.pointsBefore ≤ r.detail.budget →
    r.detail.pointsAfter = r.detail.pointsBefore
  /-- Every segment keeps two points, but for an opening one that has no more than one. -/
  ends : 2 * r.detail.segments ≤ r.detail.pointsAfter + 1

/-- A new viewer has drawn nothing yet, so that what is drawn for its first report is simplified for it. -/
theorem reportOn_eq (config : Config) (file text : String) (zoom : Float32) :
    let d := Document.ofProgram config.arcs text
    let budget := (Level.ofZoom zoom).budget config.detail.pointBudget.toNat
    let drawn := Detail.simplify config.detail budget (d.filtered .all)
    CommandLine.reportOn config file text zoom =
      { file := file
        stats := d.stats
        depths := (DepthMap.ofList d.zValues).levels
        detail := ⟨zoom, Level.ofZoom zoom, budget, drawn.length, totalLength d.segments, totalLength drawn⟩ } := rfl

/-- The numbers of every report on a text are those of its document and fit together, whatever the settings and the
zoom are. -/
theorem report_adds_up (config : Config) (file text : String) (zoom : Float32) :
    AddsUp (Document.ofProgram config.arcs text) config.detail zoom (CommandLine.reportOn config file text zoom) := by
  have laid := Document.wellLaid_segments config.arcs text
  have flagged := Document.count_travelFlags config.arcs text
  have before := Document.totalLength_segments config.arcs text
  rw [reportOn_eq]
  generalize Document.ofProgram config.arcs text = d at laid flagged before
  generalize allowed : (Level.ofZoom zoom).budget config.detail.pointBudget.toNat = budget
  have kinds : d.segments.length = d.segments.countP Segment.travel + d.segments.countP (!·.travel) := by
    rw [List.length_eq_countP_add_countP Segment.travel]
    simp
  have drawn := Detail.length_simplify config.detail budget d.segments
  have cutting : d.points.length - d.travelFlags.count true = d.travelFlags.count false := by omega
  have cuts : d.segments.length - d.segments.countP Segment.travel = d.segments.countP (!·.travel) := by omega
  rw [Document.filtered_all]
  refine
    { total := rfl
      travelPoints := rfl
      cuttingPoints := cutting
      points := ?_
      travelSegments := rfl
      cuttingSegments := cuts
      kinds := ?_
      segments := drawn
      bothKinds := ?_
      before := ?_
      budget := allowed.symm
      drawn := rfl
      after := Detail.totalLength_le_of_reduced (Detail.reduced_simplify config.detail budget d.segments)
      whole := fun enough => ?_
      ends := (Detail.drawable_simplify config.detail budget (drawable_of_wellLaid laid)).totalLength }
  · change d.travelFlags.count true + (d.points.length - d.travelFlags.count true) = d.points.length
    omega
  · change d.segments.countP Segment.travel ≤ d.segments.length - d.segments.countP Segment.travel + 1 ∧
      d.segments.length - d.segments.countP Segment.travel ≤ d.segments.countP Segment.travel + 1
    rw [cuts]
    exact Segment.alternating_counts laid.joined
  · change (Detail.simplify config.detail budget d.segments).length
      = d.segments.countP Segment.travel + (d.segments.length - d.segments.countP Segment.travel)
    omega
  · change totalLength d.segments
      = if d.points = [] then 0 else d.points.length + (Detail.simplify config.detail budget d.segments).length - 1
    rw [drawn, before]
  · change totalLength (Detail.simplify config.detail budget d.segments) = totalLength d.segments
    rw [Detail.simplify_of_not_overfull]
    rintro ⟨limited, enabled, more⟩
    rcases enough with disabled | none | enough
    · rw [enabled] at disabled
      cases disabled
    · exact limited.ne' none
    · exact absurd more (Nat.not_lt.mpr enough)

/-- A cut between two travels, seen from far away with a budget of six points. -/
theorem distant_cut_reported :
    let text := "G0 X1\nG1 X2\nX3\nX4\nX5\nX6\nX7\nX8\nX9\nX10\nX11\nG0 Y5"
    let config : Config := { detail := { pointBudget := 6 } }
    let r := CommandLine.reportOn config "cut.nc" text 0.1
    AddsUp (Document.ofProgram config.arcs text) config.detail 0.1 r ∧
      (r.stats.travelPoints, r.stats.cuttingPoints, r.stats.totalPoints) = (3, 10, 13) ∧
      (r.stats.travelSegments, r.stats.cuttingSegments, r.detail.segments) = (2, 1, 3) ∧
      (r.detail.pointsBefore, r.detail.budget, r.detail.pointsAfter) = (15, 1, 6) := by
  intro text config r
  exact ⟨report_adds_up config "cut.nc" text 0.1, by decide +kernel, by decide +kernel, by decide +kernel⟩

end Report

end Toolpath

import Mathlib
import Toolpath.Proofs.Arc.Limits

/-!
# Arcs within the range of numbers

The points of an arc between finite ends are finite as long as its circle lies within the range of numbers. Its
radius is looked at before the arc is drawn, but its centre is not, nor is how far the circle reaches around it.
-/

namespace Toolpath

open Single

/-! ### Positions -/

namespace Position

variable {p q : Position} {gap : Float32}

theorem isFinite_iff : p.isFinite = true ↔ p.x.isFinite = true ∧ p.y.isFinite = true ∧ p.z.isFinite = true := by
  simp only [isFinite, Bool.and_eq_true, and_assoc]

/-- Only what is finite is near. -/
theorem isFinite_of_distance_lt (near : p.distance q < gap) : q.isFinite = true := by
  have sum := isFinite_of_sqrt_lt near
  obtain ⟨first, third, -⟩ := isFinite_add_iff.mp sum
  obtain ⟨first, second, -⟩ := isFinite_add_iff.mp first
  have apart {x y : Float32} (square : ((x - y) * (x - y)).isFinite = true) : y.isFinite = true :=
    (isFinite_sub_iff.mp (isFinite_mul_iff.mp square).1).2.1
  exact isFinite_iff.mpr ⟨apart first, apart second, apart third⟩

end Position

theorem Plane.isFinite_compose_iff (plane : Plane) (q : InPlane) : (plane.compose q).isFinite = true ↔
    q.a.isFinite = true ∧ q.b.isFinite = true ∧ q.normal.isFinite = true := by
  rw [Position.isFinite_iff]
  cases plane <;> simp only [compose] <;> tauto

theorem Plane.isFinite_project (plane : Plane) {p : Position} (finite : p.isFinite = true) :
    (plane.project p).a.isFinite = true ∧ (plane.project p).b.isFinite = true ∧
      (plane.project p).normal.isFinite = true := by
  rwa [← plane.isFinite_compose_iff, plane.compose_project]

namespace Arc

variable {s : ArcSettings} {arc : Arc} {c : Circle} {sweep : Float32}

/-! ### Samples -/

/-- Points are never left out for being far away. -/
theorem isFinite_spaced_iff (gap : Float32) (last : Position) (ps : List Position) :
    (∀ p ∈ spaced gap last ps, p.isFinite = true) ↔ ∀ p ∈ ps, p.isFinite = true := by
  refine ⟨fun kept => ?_, fun all p member => all p ((spaced_sublist gap last ps).subset member)⟩
  induction ps generalizing last with
  | nil => exact fun p member => absurd member List.not_mem_nil
  | cons p ps ih =>
    unfold spaced at kept
    split at kept
    · next near =>
      exact List.forall_mem_cons.mpr ⟨Position.isFinite_of_distance_lt near, ih last kept⟩
    · obtain ⟨here, later⟩ := List.forall_mem_cons.mp kept
      exact List.forall_mem_cons.mpr ⟨here, ih p later⟩

theorem isFinite_interior_iff (s : ArcSettings) (arc : Arc) (c : Circle) (sweep : Float32) :
    (∀ p ∈ arc.interior s c sweep, p.isFinite = true) ↔ ∀ p ∈ arc.samples s c sweep, p.isFinite = true := by
  unfold interior
  split
  · exact isFinite_spaced_iff ..
  · exact Iff.rfl

/-- The angle of a sample. -/
def angleOf (s : ArcSettings) (arc : Arc) (c : Circle) (sweep : Float32) (i : ℕ) : Float32 :=
  arc.angleAt c arc.start + part (segmentCount s c.radius sweep) i * sweep

theorem forall_mem_samples_iff (P : Position → Prop) : (∀ p ∈ arc.samples s c sweep, P p) ↔
    ∀ i, 0 < i → i < segmentCount s c.radius sweep →
      P (arc.pointAt c (angleOf s arc c sweep i) (arc.heightAt s (part (segmentCount s c.radius sweep) i))) := by
  rw [samples_eq, List.forall_mem_map]
  refine forall_congr' fun i => ?_
  rw [List.mem_range'_1]
  constructor
  · intro sampled pos less
    exact sampled ⟨pos, by omega⟩
  · intro sampled member
    exact sampled member.1 (by omega)

/-- A coordinate of a point of the circle is in range: the centre, and how far the point is from it. -/
structure Reaches (o r k : Float32) : Prop where
  centre : o.isFinite = true
  factor : k.isFinite = true
  product : InRange (value r * value k)
  sum : InRange (value o + rounded (value r * value k))

/-- A height on the way from one to another is in range. -/
structure Climbs (start finish t : Float32) : Prop where
  rise : InRange (value finish - value start)
  sum : InRange (value start + rounded (rounded (value finish - value start) * value t))

theorem isFinite_coordinate_iff {o r k : Float32} (proper : r.isFinite = true) :
    (o + r * k).isFinite = true ↔ Reaches o r k := by
  rw [isFinite_add_iff]
  constructor
  · rintro ⟨centre, product, sum⟩
    obtain ⟨-, factor, within⟩ := isFinite_mul_iff.mp product
    rw [(rounds_mul proper factor).value product] at sum
    exact ⟨centre, factor, within, sum⟩
  · rintro ⟨centre, factor, within, sum⟩
    have product := isFinite_mul_iff.mpr ⟨proper, factor, within⟩
    rw [← (rounds_mul proper factor).value product] at sum
    exact ⟨centre, product, sum⟩

theorem isFinite_height_iff {start finish t : Float32} (left : start.isFinite = true) (right : finish.isFinite = true)
    (middle : t.isFinite = true) (size : |value t| ≤ 1) :
    (start + (finish - start) * t).isFinite = true ↔ Climbs start finish t := by
  have values (rise : (finish - start).isFinite = true) : ((finish - start) * t).isFinite = true ∧
      value ((finish - start) * t) = rounded (rounded (value finish - value start) * value t) := by
    have same := (rounds_sub right left).value rise
    have range : InRange (value (finish - start) * value t) := by
      apply inRange_of_abs_le _ (inRange_value (finish - start))
      rw [abs_mul]
      exact mul_le_of_le_one_right (abs_nonneg _) size
    have product := isFinite_mul_iff.mpr ⟨rise, middle, range⟩
    exact ⟨product, same ▸ (rounds_mul rise middle).value product⟩
  rw [isFinite_add_iff]
  constructor
  · rintro ⟨-, product, sum⟩
    have rise := (isFinite_mul_iff.mp product).1
    rw [(values rise).2] at sum
    exact ⟨(isFinite_sub_iff.mp rise).2.2, sum⟩
  · rintro ⟨rise, sum⟩
    have rise := isFinite_sub_iff.mpr ⟨right, left, rise⟩
    obtain ⟨product, same⟩ := values rise
    rw [← same] at sum
    exact ⟨left, product, sum⟩

/-- A number between minus one and one, as sine and cosine are to be. -/
structure IsRatio (k : Float32) : Prop where
  finite : k.isFinite = true
  size : |value k| ≤ 1

theorem reaches_of_isRatio {o r k : Float32} (ratio : IsRatio k) (centre : o.isFinite = true) (nonneg : 0 ≤ value r)
    (clear : InRange (|value o| + value r)) : Reaches o r k := by
  have size : |value r * value k| ≤ value r := by
    rw [abs_mul, abs_of_nonneg nonneg]
    exact mul_le_of_le_one_right nonneg ratio.size
  refine ⟨centre, ratio.finite, ?_, ?_⟩
  · apply inRange_of_abs_le _ (inRange_value r)
    rwa [abs_of_nonneg nonneg]
  · apply inRange_of_abs_le _ clear
    calc |value o + rounded (value r * value k)| ≤ |value o| + |rounded (value r * value k)| := abs_add_le _ _
      _ ≤ |value o| + value r := by linarith [abs_rounded_le (exact_value r) size]
      _ ≤ |(|value o| + value r)| := le_abs_self _

theorem climbs_of_moderate {start finish t : Float32} (low : |value start| ≤ 2 ^ 126) (high : |value finish| ≤ 2 ^ 126)
    (nonneg : 0 ≤ value t) (most : value t ≤ 1) : Climbs start finish t := by
  have limit : Exact (2 ^ 127) := ⟨1, 127, by norm_num, by norm_num, by norm_num⟩
  have apart : |value finish - value start| ≤ 2 ^ 127 := by
    have := abs_sub (value finish) (value start)
    norm_num at this low high ⊢
    linarith
  have rise := abs_rounded_le limit apart
  have part : |rounded (value finish - value start) * value t| ≤ 2 ^ 127 := by
    rw [abs_mul, abs_of_nonneg nonneg]
    exact (mul_le_of_le_one_right (abs_nonneg _) most).trans rise
  have climb := abs_rounded_le limit part
  constructor
  · rw [InRange]
    norm_num at apart ⊢
    linarith
  · have := abs_add_le (value start) (rounded (rounded (value finish - value start) * value t))
    rw [InRange]
    norm_num at this climb low ⊢
    linarith

theorem segmentCount_lt (s : ArcSettings) (radius sweep : Float32) : segmentCount s radius sweep < 2 ^ 32 := by
  have most := s.maxSegments.toNat_lt
  have limited : limitedCount s (rawSegments s radius sweep) < 2 ^ 32 := by
    unfold limitedCount
    dsimp only
    split <;> omega
  rw [segmentCount_eq]
  split
  · exact max_lt limited (by decide)
  · exact limited

theorem part_spec {radius : Float32} {i : ℕ} (less : i < segmentCount s radius sweep) :
    (part (segmentCount s radius sweep) i).isFinite = true ∧ 0 ≤ value (part (segmentCount s radius sweep) i) ∧
      value (part (segmentCount s radius sweep) i) ≤ 1 :=
  value_part less ((segmentCount_lt s radius sweep).trans (by norm_num))

/-- A sampled point is in range: on both axes of the plane, and in its height on a helix. -/
structure SampleInRange (s : ArcSettings) (arc : Arc) (c : Circle) (sweep : Float32) (i : ℕ) : Prop where
  a : Reaches c.a c.radius (Angle.cos (angleOf s arc c sweep i))
  b : Reaches c.b c.radius (Angle.sin (angleOf s arc c sweep i))
  height : s.helical = true → Climbs (arc.plane.project arc.start).normal (arc.plane.project arc.finish).normal
    (part (segmentCount s c.radius sweep) i)

theorem proper_of_properCircle? (proper : arc.properCircle? = some c) :
    c.radius.isFinite = true ∧ ¬ c.radius < leastRadius := by
  have isProper := (Option.filter_eq_some_iff.mp proper).2
  simpa [Circle.isProper] using isProper

/-- The circle lies within the range of numbers, and a helix on it climbs between heights of a moderate size. -/
structure IsClear (s : ArcSettings) (arc : Arc) (c : Circle) : Prop where
  centre : c.a.isFinite = true ∧ c.b.isFinite = true
  a : InRange (|value c.a| + value c.radius)
  b : InRange (|value c.b| + value c.radius)
  height : s.helical = true → |value (arc.plane.project arc.start).normal| ≤ 2 ^ 126 ∧
    |value (arc.plane.project arc.finish).normal| ≤ 2 ^ 126

theorem sampleInRange_of_isClear (proper : c.radius.isFinite = true ∧ ¬ c.radius < leastRadius) (clear : IsClear s arc c)
    {i : ℕ} (cos : IsRatio (Angle.cos (angleOf s arc c sweep i))) (sin : IsRatio (Angle.sin (angleOf s arc c sweep i)))
    (less : i < segmentCount s c.radius sweep) : SampleInRange s arc c sweep i := by
  have least : leastRadius.isFinite = true := by decide +kernel
  have size := (le_iff least proper.1).mp (le_of_not_lt proper.1 least proper.2)
  have nonneg : 0 ≤ value c.radius := le_trans (by decide +kernel) size
  obtain ⟨-, low, high⟩ := part_spec less
  refine ⟨reaches_of_isRatio cos clear.centre.1 nonneg clear.a, reaches_of_isRatio sin clear.centre.2 nonneg clear.b, ?_⟩
  intro helical
  obtain ⟨start, finish⟩ := clear.height helical
  exact climbs_of_moderate start finish low high

variable (start : arc.start.isFinite = true) (finish : arc.finish.isFinite = true)
include start finish

theorem isFinite_pointAt_iff (proper : c.radius.isFinite = true) {i : ℕ} (less : i < segmentCount s c.radius sweep) :
    (arc.pointAt c (angleOf s arc c sweep i) (arc.heightAt s (part (segmentCount s c.radius sweep) i))).isFinite = true ↔
      SampleInRange s arc c sweep i := by
  obtain ⟨-, -, low⟩ := arc.plane.isFinite_project start
  obtain ⟨-, -, high⟩ := arc.plane.isFinite_project finish
  obtain ⟨middle, nonneg, most⟩ := part_spec less
  have height : (arc.heightAt s (part (segmentCount s c.radius sweep) i)).isFinite = true ↔
      (s.helical = true → Climbs (arc.plane.project arc.start).normal (arc.plane.project arc.finish).normal
        (part (segmentCount s c.radius sweep) i)) := by
    unfold heightAt
    dsimp only
    split
    · next helical =>
      rw [isFinite_height_iff low high middle (abs_le.mpr ⟨by linarith, most⟩)]
      exact ⟨fun climbs _ => climbs, fun climbs => climbs helical⟩
    · next flat => exact ⟨fun _ helical => absurd helical flat, fun _ => low⟩
  unfold pointAt
  rw [arc.plane.isFinite_compose_iff, isFinite_coordinate_iff proper, isFinite_coordinate_iff proper, height]
  constructor
  · rintro ⟨a, b, height⟩
    exact ⟨a, b, height⟩
  · rintro ⟨a, b, height⟩
    exact ⟨a, b, height⟩

/-- The polyline is finite exactly if every sample is in range. -/
theorem isFinite_points_iff (s : ArcSettings) : (∀ p ∈ arc.points s, p.isFinite = true) ↔
    ∀ c sweep, arc.properCircle? = some c → arc.sweepAround c = some sweep →
      ∀ i, 0 < i → i < segmentCount s c.radius sweep → SampleInRange s arc c sweep i := by
  have inner : (∀ p ∈ arc.points s, p.isFinite = true) ↔ ∀ p ∈ arc.between s, p.isFinite = true := by
    rw [points_eq, List.forall_mem_cons, List.forall_mem_append]
    constructor
    · exact fun all => all.2.1
    · exact fun all => ⟨start, all, List.forall_mem_singleton.mpr finish⟩
  rw [inner]
  constructor
  · intro all c sweep proper turns i pos less
    rw [between_of_sweep s proper turns, isFinite_interior_iff, forall_mem_samples_iff] at all
    exact (isFinite_pointAt_iff start finish (proper_of_properCircle? proper).1 less).mp (all i pos less)
  · intro range
    cases sweeps : arc.sweep? with
    | none =>
      rw [between_of_straight sweeps]
      exact fun p member => absurd member List.not_mem_nil
    | some sweep =>
      obtain ⟨c, proper, turns⟩ := sweep?_eq_some_iff.mp sweeps
      rw [between_of_sweep s proper turns, isFinite_interior_iff, forall_mem_samples_iff]
      intro i pos less
      exact (isFinite_pointAt_iff start finish (proper_of_properCircle? proper).1 less).mpr
        (range c sweep proper turns i pos less)

/-- With finite ends, the polyline of an arc is finite exactly if every sample is in range. So it is if the whole circle
lies within the range of numbers, a helix is of moderate height, and sine and cosine are between minus one and one. -/
theorem points_in_range (s : ArcSettings) :
    ((∀ p ∈ arc.points s, p.isFinite = true) ↔
      ∀ c sweep, arc.properCircle? = some c → arc.sweepAround c = some sweep →
        ∀ i, 0 < i → i < segmentCount s c.radius sweep → SampleInRange s arc c sweep i) ∧
    ((∀ c sweep, arc.properCircle? = some c → arc.sweepAround c = some sweep → IsClear s arc c ∧
      ∀ i, 0 < i → i < segmentCount s c.radius sweep →
        IsRatio (Angle.cos (angleOf s arc c sweep i)) ∧ IsRatio (Angle.sin (angleOf s arc c sweep i))) →
      ∀ p ∈ arc.points s, p.isFinite = true) := by
  refine ⟨isFinite_points_iff start finish s, fun clear => (isFinite_points_iff start finish s).mpr ?_⟩
  intro c sweep proper turns i pos less
  obtain ⟨within, ratios⟩ := clear c sweep proper turns
  obtain ⟨cos, sin⟩ := ratios i pos less
  exact sampleInRange_of_isClear (proper_of_properCircle? proper) within cos sin less

omit start finish

/-- Half a turn of radius one around the origin. -/
def unitArc : Arc where
  start := ⟨1, 0, 0⟩
  finish := ⟨-1, 0, 0⟩
  plane := .xy
  turn := .counterClockwise
  offset := some (-1, 0)

theorem unit_arc_in_range : unitArc.start.isFinite = true ∧ unitArc.finish.isFinite = true ∧
    IsClear {} unitArc ⟨0, 0, 1⟩ ∧
    ((∀ p ∈ unitArc.points {}, p.isFinite = true) ↔ ∀ sweep, unitArc.sweepAround ⟨0, 0, 1⟩ = some sweep →
      ∀ i, 0 < i → i < segmentCount {} 1 sweep → SampleInRange {} unitArc ⟨0, 0, 1⟩ sweep i) := by
  have start : unitArc.start.isFinite = true := by decide +kernel
  have finish : unitArc.finish.isFinite = true := by decide +kernel
  have proper : unitArc.properCircle? = some ⟨0, 0, 1⟩ := by decide +kernel
  have zero : value 0 = 0 := by decide +kernel
  have one : value 1 = 1 := by decide +kernel
  have clear : InRange (|value 0| + value 1) := by
    rw [zero, one, InRange]
    norm_num
  refine ⟨start, finish, ⟨⟨by decide, by decide⟩, clear, clear, fun helical => absurd helical Bool.false_ne_true⟩, ?_⟩
  rw [(points_in_range start finish {}).1, proper]
  constructor
  · exact fun range sweep => range _ sweep rfl
  · rintro range _ sweep ⟨⟩
    exact range sweep

/-- A full turn of a small radius near the greatest numbers, around a centre beyond them. -/
def farArc : Arc where
  start := ⟨3e38, 0, 0⟩
  finish := ⟨3e38, 0, 0⟩
  plane := .xy
  turn := .counterClockwise
  offset := some (1e38, 0)
  radius := some 5

theorem far_arc_not_finite : farArc.start.isFinite = true ∧ farArc.finish.isFinite = true ∧
    (1e38 : Float32).isFinite = true ∧ (5 : Float32).isFinite = true ∧ ({} : ArcSettings).check = .ok () ∧
    ¬ ∀ p ∈ farArc.points {}, p.isFinite = true := by
  have finite : farArc.start.isFinite = true := by decide +kernel
  have checked : ({} : ArcSettings).check = .ok () := rfl
  refine ⟨finite, finite, by decide +kernel, by decide +kernel, checked, fun all => ?_⟩
  have proper : farArc.properCircle? = some ⟨infinity, 0, 5⟩ := by decide +kernel
  obtain ⟨sweep, turns, -⟩ := @sweepAround_of_closed farArc (by decide +kernel) ⟨infinity, 0, 5⟩
  have many : 4 ≤ segmentCount {} 5 sweep := (segmentCount_within checked 5 sweep).1
  have sample := (isFinite_points_iff finite finite {}).mp all _ sweep proper turns 1 one_pos (by dsimp only; omega)
  exact absurd sample.a.centre (by decide)

end Arc

end Toolpath

import Toolpath.Program.Run
import Toolpath.Proofs.Detail.Thinning
import Toolpath.Proofs.Geometry.Directions

/-!
# Corners with repeated points

A corner of a polyline may be a point that occurs several times in a row. Between the copies the edges have no
direction, so that none of them turns sharply by itself. `corner_left_iff` says when thinning leaves one of them: a
single point always, and several ones exactly if one lies on the stride.
-/

namespace Toolpath.Detail

/-- The point at an index and the next one are equal. -/
def repeatsAt (points : List Position) (i : Nat) : Bool :=
  match points[i]?, points[i + 1]? with
  | some p, some q => p.equal q
  | _, _ => false

/-- The edge that comes in at one index and the one that goes out at another turn sharply, as if the points at both
were one. -/
def bendsOver (points : List Position) (first last : Nat) : Bool :=
  match points[first - 1]?, points[first]?, points[last]?, points[last + 1]? with
  | some before, some here, some there, some after =>
    let incoming := (here.minus before).direction
    let outgoing := (after.minus there).direction
    !incoming.isZero && !outgoing.isZero && incoming.dot outgoing < sharpTurn
  | _, _, _, _ => false

/-- Equal points at which a polyline turns sharply. -/
structure Corner (points : List Position) (first last : Nat) : Prop where
  afterFirst : 0 < first
  ordered : first ≤ last
  beforeLast : last + 1 < points.length
  repeated : ∀ i, first ≤ i → i < last → repeatsAt points i = true
  bend : bendsOver points first last = true

/-- The indices that simplifying leaves of one of the segments. -/
def indicesLeft (settings : DetailSettings) (budget : Nat) (ss : List Segment) (s : Segment) : List Nat :=
  if Overfull settings budget ss ∧ wholeLength < s.length then
    kept (strideOf settings (generalStride (Segment.totalLength ss) budget) s) s.points
  else List.range s.points.length

variable {points : List Position} {first last stride : Nat}

/-! ### Turns among equal points -/

theorem repeatsAt_iff {i : Nat} :
    repeatsAt points i = true ↔ ∃ p q, points[i]? = some p ∧ points[i + 1]? = some q ∧ p.equal q = true := by
  unfold repeatsAt
  cases points[i]? <;> cases points[i + 1]? <;> simp

theorem not_sharpAt_before_copy {i : Nat} (repeats : repeatsAt points i = true) : sharpAt points i = false := by
  obtain ⟨p, q, here, after, same⟩ := repeatsAt_iff.mp repeats
  cases i with
  | zero => rfl
  | succ i =>
    simp only [sharpAt, here, after]
    cases points[i]? with
    | none => rfl
    | some before =>
      simp only [turnsBelow, isZero_direction_of_equal same, Bool.not_true, Bool.and_false, Bool.false_and]

theorem not_sharpAt_copy {i : Nat} (repeats : repeatsAt points i = true) : sharpAt points (i + 1) = false := by
  obtain ⟨p, q, before, here, same⟩ := repeatsAt_iff.mp repeats
  simp only [sharpAt, before, here]
  cases points[i + 2]? with
  | none => rfl
  | some after => simp only [turnsBelow, isZero_direction_of_equal same, Bool.not_true, Bool.false_and]

theorem bendsOver_self {i : Nat} (positive : 0 < i) : bendsOver points i i = sharpAt points i := by
  obtain ⟨i, rfl⟩ := Nat.exists_eq_add_of_le' positive
  simp only [bendsOver, sharpAt, Nat.add_sub_cancel]
  cases points[i]? <;> cases points[i + 1]? <;> cases points[i + 2]? <;> rfl

theorem not_sharpAt_of_copies (corner : Corner points first last) (several : first < last) {i : Nat}
    (low : first ≤ i) (high : i ≤ last) : sharpAt points i = false := by
  rcases high.lt_or_eq with inside | rfl
  · exact not_sharpAt_before_copy (corner.repeated i low inside)
  · obtain ⟨i, rfl⟩ := Nat.exists_eq_add_of_le' (Nat.zero_lt_of_lt several)
    exact not_sharpAt_copy (corner.repeated i (by omega) (Nat.lt_succ_self i))

/-- The run of a corner cannot be extended: its edges have a direction. -/
theorem Corner.maximal (corner : Corner points first last) :
    repeatsAt points (first - 1) = false ∧ repeatsAt points last = false := by
  have afterFirst := corner.afterFirst
  have bend := corner.bend
  unfold bendsOver at bend
  split at bend
  · next before here there after beforeAt hereAt thereAt afterAt =>
    simp only [Bool.and_eq_true, Bool.not_eq_true'] at bend
    obtain ⟨⟨incoming, outgoing⟩, -⟩ := bend
    constructor
    · by_contra repeats
      obtain ⟨p, q, first, second, same⟩ := repeatsAt_iff.mp (Bool.not_eq_false _ ▸ repeats)
      rw [Nat.sub_add_cancel afterFirst, hereAt] at second
      rw [beforeAt] at first
      cases first
      cases second
      rw [isZero_direction_of_equal same] at incoming
      cases incoming
    · by_contra repeats
      obtain ⟨p, q, first, second, same⟩ := repeatsAt_iff.mp (Bool.not_eq_false _ ▸ repeats)
      rw [thereAt] at first
      rw [afterAt] at second
      cases first
      cases second
      rw [isZero_direction_of_equal same] at outgoing
      cases outgoing
  · cases bend

/-! ### What is left of a corner -/

theorem exists_kept_iff (corner : Corner points first last) :
    (∃ i ∈ kept stride points, first ≤ i ∧ i ≤ last) ↔
      first = last ∨ ∃ i, first ≤ i ∧ i ≤ last ∧ stride ∣ i := by
  have afterFirst := corner.afterFirst
  have beforeLast := corner.beforeLast
  constructor
  · rintro ⟨i, member, low, high⟩
    obtain ⟨-, isFirst | isLast | onStride | sharp⟩ := mem_kept.mp member
    · omega
    · omega
    · exact Or.inr ⟨i, low, high, onStride⟩
    · rcases corner.ordered.lt_or_eq with several | single
      · rw [not_sharpAt_of_copies corner several low high] at sharp
        cases sharp
      · exact Or.inl single
  · rintro (rfl | ⟨i, low, high, onStride⟩)
    · have sharp : sharpAt points first = true := (bendsOver_self afterFirst).symm.trans corner.bend
      exact ⟨first, mem_kept.mpr ⟨by omega, Or.inr (Or.inr (Or.inr sharp))⟩, le_rfl, le_rfl⟩
    · exact ⟨i, mem_kept.mpr ⟨by omega, Or.inr (Or.inr (Or.inl onStride))⟩, low, high⟩

variable {settings : DetailSettings} {budget : Nat} {ss : List Segment} {s : Segment}

theorem indicesLeft_of_thinned (exceeds : Overfull settings budget ss) (long : wholeLength < s.length) :
    indicesLeft settings budget ss s =
      kept (strideOf settings (generalStride (Segment.totalLength ss) budget) s) s.points :=
  if_pos ⟨exceeds, long⟩

theorem indicesLeft_of_whole (whole : Overfull settings budget ss → ¬ wholeLength < s.length) :
    indicesLeft settings budget ss s = List.range s.points.length :=
  if_neg fun thinned => whole thinned.1 thinned.2

theorem map_some_range (points : List Position) :
    points.map some = (List.range points.length).map (points[·]?) := by
  rw [← map_some_filterMap_getElem? fun i member => List.mem_range.mp member, filterMap_getElem?_range]

theorem map_some_simplify (settings : DetailSettings) (budget : Nat) {i : Nat} (place : ss[i]? = some s) :
    ∃ t, (simplify settings budget ss)[i]? = some t ∧
      t.points.map some = (indicesLeft settings budget ss s).map (s.points[·]?) := by
  by_cases exceeds : Overfull settings budget ss
  · rw [simplify_of_overfull exceeds, List.getElem?_map, place]
    refine ⟨_, rfl, ?_⟩
    by_cases long : wholeLength < s.length
    · rw [indicesLeft_of_thinned exceeds long, simplifySegment_of_long _ long]
      exact map_some_thin _ s.points
    · rw [indicesLeft_of_whole fun _ => long, simplifySegment_of_short _ (Nat.not_lt.mp long)]
      exact map_some_range s.points
  · rw [simplify_of_not_overfull exceeds, indicesLeft_of_whole fun contrary => absurd contrary exceeds]
    exact ⟨s, place, map_some_range s.points⟩

/-- Simplifying leaves at least one of the equal points at a corner exactly if the segment stays whole, or there is
only one such point, or one of them lies on the stride of the segment. -/
theorem corner_left_iff (settings : DetailSettings) (budget : Nat) {i : Nat} (place : ss[i]? = some s)
    (corner : Corner s.points first last) :
    ∃ t, (simplify settings budget ss)[i]? = some t ∧
      t.points.map some = (indicesLeft settings budget ss s).map (s.points[·]?) ∧
      ((∃ k ∈ indicesLeft settings budget ss s, first ≤ k ∧ k ≤ last) ↔
        (Overfull settings budget ss → wholeLength < s.length → first = last ∨
          ∃ k, first ≤ k ∧ k ≤ last ∧
            (if isPreserved settings s then max 2 (s.length / 20) else Segment.totalLength ss ⌈/⌉ budget) ∣ k)) := by
  obtain ⟨t, found, points⟩ := map_some_simplify settings budget place
  refine ⟨t, found, points, ?_⟩
  by_cases thinned : Overfull settings budget ss ∧ wholeLength < s.length
  · obtain ⟨exceeds, long⟩ := thinned
    rw [indicesLeft_of_thinned exceeds long, exists_kept_iff corner, strideOf_eq exceeds]
    simp only [exceeds, long, forall_const]
  · have whole : Overfull settings budget ss → ¬ wholeLength < s.length := not_and.mp thinned
    have beforeLast := corner.beforeLast
    have present : ∃ k ∈ indicesLeft settings budget ss s, first ≤ k ∧ k ≤ last := by
      rw [indicesLeft_of_whole whole]
      exact ⟨first, List.mem_range.mpr (by have := corner.ordered; omega), le_rfl, corner.ordered⟩
    exact ⟨fun _ exceeds long => absurd long (whole exceeds), fun _ => present⟩

/-- A row of points along one axis and one along the next, with the corner between them twice. -/
def angle : Segment :=
  ⟨[⟨1, 0, 0⟩, ⟨2, 0, 0⟩, ⟨3, 0, 0⟩, ⟨4, 0, 0⟩, ⟨5, 0, 0⟩, ⟨5, 0, 0⟩, ⟨5, 1, 0⟩, ⟨5, 2, 0⟩, ⟨5, 3, 0⟩, ⟨5, 4, 0⟩], false⟩

theorem corner_angle : Corner angle.points 4 5 := by
  refine ⟨by decide, by decide, by decide, ?_, by decide +kernel⟩
  intro i low high
  obtain rfl : i = 4 := by omega
  decide +kernel

/-- In every second point the corner is left, since its first copy is one of them. -/
theorem angle_corner_left :
    ∃ t, (simplify {} 5 [angle])[0]? = some t ∧
      t.points.map some = (indicesLeft {} 5 [angle] angle).map (angle.points[·]?) ∧
      ∃ k ∈ indicesLeft {} 5 [angle] angle, 4 ≤ k ∧ k ≤ 5 := by
  have place : [angle][0]? = some angle := rfl
  obtain ⟨t, found, points, condition⟩ := corner_left_iff {} 5 place corner_angle
  have onStride : (if isPreserved {} angle then max 2 (angle.length / 20)
      else Segment.totalLength [angle] ⌈/⌉ 5) ∣ 4 := by
    decide +kernel
  exact ⟨t, found, points, condition.mpr fun _ _ => Or.inr ⟨4, le_rfl, by decide, onStride⟩⟩

/-- The axes are set anew at the corner, so that the program names it twice. In every third point neither copy is
left. -/
theorem doubled_corner_lost :
    (Document.ofProgram {} "G1 X1\nX2\nX3\nX4\nX5\nG92 X0\nG1 X5\nY1\nY2\nY3\nY4").segments = [angle] ∧
      Corner angle.points 4 5 ∧ (¬ ∃ k ∈ indicesLeft {} 4 [angle] angle, 4 ≤ k ∧ k ≤ 5) ∧
      ∀ t ∈ simplify {} 4 [angle], ⟨5, 0, 0⟩ ∉ t.points := by
  refine ⟨by decide +kernel, corner_angle, by decide +kernel, by decide +kernel⟩

end Toolpath.Detail

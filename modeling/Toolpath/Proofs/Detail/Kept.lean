import Mathlib.Data.List.Chain
import Toolpath.Detail.Simplify

/-!
# The indices of a thinned polyline

Thinning walks over the corners of a polyline. `thin_eq` and `map_some_thin` say which points are left in
terms of their indices: those in `kept`. `mem_kept` says which indices these are, and `isChain_kept` that
neighbours among them are no further apart than the stride.
-/

namespace Toolpath.Detail

/-- The polyline turns sharply at an index that has a neighbour on either side. -/
def sharpAt (points : List Position) : Nat → Bool
  | 0 => false
  | i + 1 =>
    match points[i]?, points[i + 1]?, points[i + 2]? with
    | some before, some here, some after => turnsBelow sharpTurn before here after
    | _, _, _ => false

def keepsInner (stride : Nat) (points : List Position) (i : Nat) : Bool :=
  i % stride == 0 || sharpAt points i

/-- The indices that are left when a polyline is thinned. -/
def kept (stride : Nat) (points : List Position) : List Nat :=
  (List.range points.length).filter fun i =>
    i == 0 || i + 1 == points.length || keepsInner stride points i

/-- The indices strictly between the ends of a polyline. -/
def inner (points : List Position) : List Nat := List.range' 1 (points.length - 2)

variable {stride : Nat} {points : List Position}

theorem getElem?_vertices {i : Nat} {v : Vertex} :
    (vertices points)[i]? = some v ↔
      points[i]? = some v.before ∧ points[i + 1]? = some v.here ∧ points[i + 2]? = some v.after := by
  simp only [vertices, List.getElem?_map, Option.map_eq_some_iff, List.getElem?_zip_eq_some, List.getElem?_tail]
  constructor
  · rintro ⟨⟨p, q, r⟩, found, rfl⟩
    exact found
  · intro found
    exact ⟨(v.before, v.here, v.after), found, rfl⟩

theorem length_vertices (points : List Position) : (vertices points).length = points.length - 2 := by
  simp only [vertices, List.length_map, List.length_zip, List.length_tail]
  omega

theorem exists_point {i : Nat} (inside : i < points.length) : ∃ p, points[i]? = some p :=
  ⟨_, List.getElem?_eq_getElem inside⟩

/-- At every inner index there are three points to compare. -/
theorem sharpAt_inner {i : Nat} (afterFirst : 0 < i) (beforeLast : i + 1 < points.length) :
    ∃ before here after, points[i - 1]? = some before ∧ points[i]? = some here ∧
      points[i + 1]? = some after ∧ sharpAt points i = turnsBelow sharpTurn before here after := by
  obtain ⟨i, rfl⟩ := Nat.exists_eq_add_of_le' afterFirst
  obtain ⟨p, before⟩ : ∃ p, points[i]? = some p := exists_point (by omega)
  obtain ⟨q, here⟩ : ∃ q, points[i + 1]? = some q := exists_point (by omega)
  obtain ⟨r, after⟩ : ∃ r, points[i + 2]? = some r := exists_point beforeLast
  exact ⟨p, q, r, before, here, after, by simp only [sharpAt, before, here, after]⟩

theorem filterMap_zipIdx {α β : Type} {f : α × Nat → Option β} {g : Nat → Option β} (xs : List α) (k : Nat)
    (agree : ∀ i x, xs[i]? = some x → f (x, k + i) = g (k + i)) :
    (xs.zipIdx k).filterMap f = (List.range' k xs.length).filterMap g := by
  induction xs generalizing k with
  | nil => rfl
  | cons x xs ih =>
    have first : f (x, k) = g k := agree 0 x rfl
    have later := ih (k + 1) fun i y found => by
      rw [Nat.add_right_comm]
      exact agree (i + 1) y found
    rw [List.zipIdx_cons, List.length_cons, List.range'_succ, List.filterMap_cons, List.filterMap_cons,
      later, first]

theorem keptInterior_eq (stride : Nat) (points : List Position) :
    keptInterior stride points =
      ((inner points).filter (keepsInner stride points)).filterMap (points[·]?) := by
  rw [keptInterior, inner, ← length_vertices, List.filterMap_filter]
  refine filterMap_zipIdx _ 1 ?_
  intro i v found
  obtain ⟨before, here, after⟩ := getElem?_vertices.mp found
  simp [Nat.add_comm 1 i, keepsInner, sharpAt, before, here, after, Vertex.isKept, Vertex.isSharp]

theorem range_eq_inner (two : 2 ≤ points.length) :
    List.range points.length = 0 :: (inner points ++ [points.length - 1]) := by
  obtain ⟨n, count⟩ := Nat.exists_eq_add_of_le' two
  rw [inner, count, List.range_eq_range', List.range'_succ, List.range'_concat]
  simp [Nat.add_comm]

theorem kept_eq (stride : Nat) (two : 2 ≤ points.length) :
    kept stride points = 0 :: ((inner points).filter (keepsInner stride points) ++ [points.length - 1]) := by
  have between : ∀ i ∈ inner points,
      (i == 0 || i + 1 == points.length || keepsInner stride points i) = keepsInner stride points i := by
    intro i member
    have bounds := List.mem_range'_1.mp member
    have notFirst : (i == 0) = false := beq_false_of_ne (by omega)
    have notLast : (i + 1 == points.length) = false := beq_false_of_ne (by omega)
    rw [notFirst, notLast, Bool.false_or, Bool.false_or]
  have last : (points.length - 1 + 1 == points.length) = true := beq_iff_eq.mpr (by omega)
  rw [kept, range_eq_inner two, List.filter_cons_of_pos (by simp), List.filter_append, List.filter_congr between,
    List.filter_cons_of_pos (by simp [last]), List.filter_nil]

theorem thin_eq (stride : Nat) (points : List Position) :
    thin stride points = (kept stride points).filterMap (points[·]?) := by
  match points with
  | [] => rfl
  | [p] => rfl
  | p :: q :: later =>
    have two : 2 ≤ (p :: q :: later).length := by simp
    have last : (p :: q :: later)[(p :: q :: later).length - 1]? = some ((q :: later).getLast (by simp)) := by
      rw [← List.getLast?_eq_getElem?, List.getLast?_cons_cons, List.getLast?_eq_some_getLast]
    rw [thin, kept_eq stride two, keptInterior_eq, List.filterMap_cons, List.filterMap_append]
    simp only [List.filterMap_cons, last]
    rfl

theorem mem_kept {i : Nat} :
    i ∈ kept stride points ↔ i < points.length ∧
      (i = 0 ∨ i + 1 = points.length ∨ stride ∣ i ∨ sharpAt points i = true) := by
  simp only [kept, keepsInner, List.mem_filter, List.mem_range, Bool.or_eq_true, beq_iff_eq, or_assoc,
    Nat.dvd_iff_mod_eq_zero]

theorem rising_kept (stride : Nat) (points : List Position) : (kept stride points).Pairwise (· < ·) :=
  List.pairwise_lt_range.filter _

/-! ### The points at the indices -/

theorem map_some_filterMap_getElem? {is : List Nat} (inside : ∀ i ∈ is, i < points.length) :
    (is.filterMap (points[·]?)).map some = is.map (points[·]?) := by
  induction is with
  | nil => rfl
  | cons i is ih =>
    obtain ⟨p, found⟩ := exists_point (inside i List.mem_cons_self)
    have later := ih fun j member => inside j (List.mem_cons_of_mem _ member)
    rw [List.filterMap_cons, found, List.map_cons, List.map_cons, found, later]

/-- The points of a thinned polyline are those at the kept indices, and none of these lies outside. -/
theorem map_some_thin (stride : Nat) (points : List Position) :
    (thin stride points).map some = (kept stride points).map (points[·]?) := by
  rw [thin_eq]
  exact map_some_filterMap_getElem? fun i member => (mem_kept.mp member).1

theorem length_thin (stride : Nat) (points : List Position) :
    (thin stride points).length = (kept stride points).length := by
  rw [← List.length_map (f := some), map_some_thin, List.length_map]

theorem filterMap_getElem?_range (points : List Position) :
    (List.range points.length).filterMap (points[·]?) = points := by
  have whole : (List.range points.length).map (points[·]?) = points.map some := by
    apply List.ext_getElem?
    intro i
    by_cases inside : i < points.length <;> simp [inside]
  rw [← List.map_inj_right (f := some) (fun _ _ => Option.some.inj), ← whole]
  exact map_some_filterMap_getElem? fun i member => List.mem_range.mp member

theorem thin_sublist (stride : Nat) (points : List Position) : (thin stride points).Sublist points := by
  have chosen : (kept stride points).Sublist (List.range points.length) := List.filter_sublist
  have selected := chosen.filterMap fun i => points[i]?
  rwa [filterMap_getElem?_range, ← thin_eq] at selected

theorem head?_thin (stride : Nat) (points : List Position) : (thin stride points).head? = points.head? := by
  match points with
  | [] | [p] | p :: q :: later => rfl

theorem getLast?_thin (stride : Nat) (points : List Position) :
    (thin stride points).getLast? = points.getLast? := by
  match points with
  | [] | [p] => rfl
  | p :: q :: later => simp [thin, List.getLast?_eq_some_getLast]

/-! ### Gaps -/

/-- Neighbours of a rising list are close when every element but the last has another one close above it. -/
theorem isChain_of_close {is : List Nat} {gap : Nat} (rising : is.Pairwise (· < ·))
    (close : ∀ i ∈ is, ∀ j ∈ is, i < j → ∃ k ∈ is, i < k ∧ k ≤ i + gap) :
    is.IsChain fun i j => j ≤ i + gap := by
  induction is with
  | nil => exact .nil
  | cons i is ih =>
    obtain ⟨least, later⟩ := List.pairwise_cons.mp rising
    have closeLater : ∀ j ∈ is, ∀ l ∈ is, j < l → ∃ k ∈ is, j < k ∧ k ≤ j + gap := by
      intro j first l second less
      obtain ⟨k, found, above, near⟩ :=
        close j (List.mem_cons_of_mem _ first) l (List.mem_cons_of_mem _ second) less
      rcases List.mem_cons.mp found with rfl | found
      · have := least j first
        omega
      · exact ⟨k, found, above, near⟩
    refine List.isChain_cons.mpr ⟨?_, ih later closeLater⟩
    intro j next
    obtain ⟨rest, rfl⟩ := List.head?_eq_some_iff.mp next
    -- The element close above `i` is `j` or lies beyond it.
    obtain ⟨k, found, above, near⟩ := close i List.mem_cons_self j (by simp) (least j List.mem_cons_self)
    rcases List.mem_cons.mp found with rfl | found
    · omega
    · rcases List.mem_cons.mp found with rfl | found
      · exact near
      · have := (List.pairwise_cons.mp later).1 k found
        omega

theorem isChain_kept (positive : 0 < stride) (points : List Position) :
    (kept stride points).IsChain fun i j => j ≤ i + stride := by
  apply isChain_of_close (rising_kept stride points)
  intro i _ j member less
  -- The next multiple of the stride is kept, unless the end of the polyline comes before it.
  let next := (i / stride + 1) * stride
  have above : i < next := Nat.lt_mul_of_div_lt (Nat.lt_succ_self _) positive
  have near : next ≤ i + stride := by
    have := Nat.div_mul_le_self i stride
    rw [show next = i / stride * stride + stride from Nat.succ_mul ..]
    omega
  by_cases inside : next < points.length
  · exact ⟨next, mem_kept.mpr ⟨inside, Or.inr (Or.inr (Or.inl (Nat.dvd_mul_left ..)))⟩, above, near⟩
  · have := (mem_kept.mp member).1
    exact ⟨j, member, less, by omega⟩

end Toolpath.Detail

import Toolpath.Proofs.Arc.Range

/-!
# Points kept apart

On a circle that is not small, a sample is left out if it is too close to the last point before it that was not. So
no two points in a row are too close, but for the finish, which is always there; and whatever is left out is
close to a point that stays.
-/

namespace Toolpath.Arc

variable {s : ArcSettings} {arc : Arc} {c : Circle} {gap : Float32} {start p : Position} {ps : List Position}
  {kept : List ℕ} {i : ℕ}

/-! ### Places in the samples -/

/-- The point that stands before a place of the samples: the last one kept before it, or else the start. -/
def lastBefore (start : Position) (ps : List Position) (kept : List ℕ) (i : ℕ) : Position :=
  ((kept.filter (· < i)).filterMap (ps[·]?)).getLastD start

/-- What is left of a list of points when each one too close to the last one kept before it is left out. -/
structure Greedy (gap : Float32) (start : Position) (ps : List Position) (kept : List ℕ)
    (rest : List Position) : Prop where
  rising : kept.Pairwise (· < ·)
  picked : rest.map some = kept.map (ps[·]?)
  left_out_iff : ∀ i p, ps[i]? = some p → (i ∉ kept ↔ (lastBefore start ps kept i).distance p < gap)
  apart : (start :: rest).IsChain fun p q => ¬ p.distance q < gap

theorem lastBefore_zero (start : Position) (ps : List Position) (kept : List ℕ) :
    lastBefore start ps kept 0 = start := by
  unfold lastBefore
  rw [List.filter_eq_nil_iff.mpr fun i _ => by simp]
  rfl

/-- The points kept before a place, when one more sample comes first. -/
theorem filterMap_later (p : Position) (ps : List Position) (kept : List ℕ) (i : ℕ) :
    ((kept.map (· + 1)).filter (· < i + 1)).filterMap ((p :: ps)[·]?) =
      (kept.filter (· < i)).filterMap (ps[·]?) := by
  rw [List.filter_map, List.filterMap_map]
  congr 1
  refine List.filter_congr fun j _ => ?_
  simp

theorem lastBefore_skipped (start p : Position) (ps : List Position) (kept : List ℕ) (i : ℕ) :
    lastBefore start (p :: ps) (kept.map (· + 1)) (i + 1) = lastBefore start ps kept i := by
  unfold lastBefore
  rw [filterMap_later]

theorem lastBefore_kept (start p : Position) (ps : List Position) (kept : List ℕ) (i : ℕ) :
    lastBefore start (p :: ps) (0 :: kept.map (· + 1)) (i + 1) = lastBefore p ps kept i := by
  unfold lastBefore
  rw [List.filter_cons_of_pos (by simp)]
  change (p :: _).getLastD start = _
  rw [filterMap_later, List.getLastD_cons]

/-! ### The loop -/

theorem rising_later (rising : kept.Pairwise (· < ·)) : (kept.map (· + 1)).Pairwise (· < ·) :=
  List.pairwise_map.mpr (rising.imp fun less => Nat.add_lt_add_right less 1)

theorem succ_mem_later : i + 1 ∈ kept.map (· + 1) ↔ i ∈ kept := by
  simp [List.mem_map]

theorem greedy_skip {rest : List Position} (greedy : Greedy gap start ps kept rest) (near : start.distance p < gap) :
    Greedy gap start (p :: ps) (kept.map (· + 1)) rest where
  rising := rising_later greedy.rising
  picked := by
    rw [greedy.picked, List.map_map]
    rfl
  left_out_iff := by
    intro i q found
    cases i with
    | zero =>
      obtain rfl : p = q := Option.some.inj found
      rw [lastBefore_zero]
      exact iff_of_true (by simp) near
    | succ i =>
      rw [lastBefore_skipped, succ_mem_later]
      exact greedy.left_out_iff i q found
  apart := greedy.apart

theorem greedy_keep {rest : List Position} (greedy : Greedy gap p ps kept rest) (far : ¬ start.distance p < gap) :
    Greedy gap start (p :: ps) (0 :: kept.map (· + 1)) (p :: rest) where
  rising := by
    refine List.pairwise_cons.mpr ⟨fun i member => ?_, rising_later greedy.rising⟩
    obtain ⟨j, _, rfl⟩ := List.mem_map.mp member
    exact Nat.succ_pos j
  picked := by
    rw [List.map_cons, List.map_cons, greedy.picked, List.map_map]
    rfl
  left_out_iff := by
    intro i q found
    cases i with
    | zero =>
      obtain rfl : p = q := Option.some.inj found
      rw [lastBefore_zero]
      exact iff_of_false (by simp) far
    | succ i =>
      rw [lastBefore_kept, List.mem_cons, or_iff_right (Nat.succ_ne_zero i), succ_mem_later]
      exact greedy.left_out_iff i q found
  apart := List.isChain_cons_cons.mpr ⟨far, greedy.apart⟩

/-- The samples that the loop keeps. The start is the last point kept so far, so the induction is for all of them. -/
theorem exists_greedy (gap : Float32) (start : Position) (ps : List Position) :
    ∃ kept, Greedy gap start ps kept (spaced gap start ps) := by
  induction ps generalizing start with
  | nil => exact ⟨[], .nil, rfl, nofun, List.isChain_singleton start⟩
  | cons p ps ih =>
    unfold spaced
    split
    · next near =>
      obtain ⟨kept, greedy⟩ := ih start
      exact ⟨_, greedy_skip greedy near⟩
    · next far =>
      obtain ⟨kept, greedy⟩ := ih p
      exact ⟨_, greedy_keep greedy far⟩

/-! ### The polyline -/

/-- The points that are computed on the way from the start of an arc to its finish. -/
def sampled (s : ArcSettings) (arc : Arc) : List Position :=
  match arc.properCircle? with
  | none => []
  | some c =>
    match arc.sweepAround c with
    | none => []
    | some sweep => arc.samples s c sweep

theorem between_eq_spaced (resolved : arc.circle? = some c) (large : 1 ≤ c.radius) (wide : 0 < s.minSpacing) :
    arc.between s = spaced s.minSpacing arc.start (arc.sampled s) := by
  unfold between sampled
  cases proper : arc.properCircle? with
  | none => rfl
  | some d =>
    have same : some c = some d := resolved.symm.trans (Option.filter_eq_some_iff.mp proper).1
    cases same
    dsimp only
    cases arc.sweepAround c with
    | none => rfl
    | some sweep =>
      dsimp only [interior]
      exact if_pos (Bool.and_eq_true_iff.mpr ⟨decide_eq_true large, decide_eq_true wide⟩)

/-- On a circle that is not small, points in a row are never closer than the spacing, the last two excepted, and the
samples left out are exactly those closer than the spacing to the point before them. -/
theorem points_spaced (resolved : arc.circle? = some c) (large : 1 ≤ c.radius) (wide : 0 < s.minSpacing) :
    (arc.points s).dropLast.IsChain (fun p q => ¬ p.distance q < s.minSpacing) ∧
      ∃ kept rest, arc.points s = arc.start :: (rest ++ [arc.finish]) ∧
        Greedy s.minSpacing arc.start (arc.sampled s) kept rest := by
  obtain ⟨kept, greedy⟩ := exists_greedy s.minSpacing arc.start (arc.sampled s)
  rw [← between_eq_spaced resolved large wide] at greedy
  refine ⟨?_, kept, arc.between s, points_eq s arc, greedy⟩
  rw [points_eq, ← List.cons_append, List.dropLast_concat]
  exact greedy.apart

/-- A radius that the start does not have: samples lie five units from the centre, and the start one. -/
theorem wide_arc_spaced : ({ unitArc with radius := some 5 } : Arc).circle? = some ⟨0, 0, 5⟩ ∧ (1 : Float32) ≤ 5 ∧
    (0 : Float32) < 0.5 ∧
    (points { minSpacing := 0.5 } { unitArc with radius := some 5 }).dropLast.IsChain
      (fun p q => ¬ p.distance q < 0.5) ∧
    ∃ kept rest, points { minSpacing := 0.5 } { unitArc with radius := some 5 } =
        unitArc.start :: (rest ++ [unitArc.finish]) ∧
      Greedy 0.5 unitArc.start (sampled { minSpacing := 0.5 } { unitArc with radius := some 5 }) kept rest := by
  have resolved : ({ unitArc with radius := some 5 } : Arc).circle? = some ⟨0, 0, 5⟩ := by decide +kernel
  have large : (1 : Float32) ≤ 5 := by decide +kernel
  have wide : (0 : Float32) < 0.5 := by decide +kernel
  exact ⟨resolved, large, wide, points_spaced (s := { minSpacing := 0.5 }) resolved large wide⟩

end Toolpath.Arc

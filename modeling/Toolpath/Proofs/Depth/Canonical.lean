import Mathlib
import Toolpath.Proofs.Depth.Lookup

/-!
# One map for one set of heights

The entries of a map are clearly apart, and each finite height of the stream is at an entry or within the tolerance
above it. Which heights become entries depends on nothing but the set of the finite ones: sorting forgets their
order, and a copy stands behind its original and merges into it, or into what that one merges into.
-/

namespace Toolpath.DepthMap

open Position (tolerance)
open Single (eq_of_orderKey_eq extended extended_eq extended_sub infinity isFinite_of_abs_le isNaN_of_isFinite le_iff
  lt_iff lt_iff_extended orderKey rounded_nonneg rounds_sub value zero_div_of_pos)

variable {a b kept low next z : Float32} {later xs ys zs : List Float32}

/-! ### Copies -/

/-- In order, a copy follows its original at once. -/
theorem copy_follows (sorted : (z :: zs).Pairwise fun a b => orderKey a ≤ orderKey b) (again : z ∈ zs) :
    ∃ rest, zs = z :: rest := by
  cases zs with
  | nil => cases again
  | cons y rest =>
    obtain ⟨least, sorted⟩ := List.pairwise_cons.mp sorted
    rcases List.mem_cons.mp again with rfl | further
    · exact ⟨rest, rfl⟩
    · have below := (List.pairwise_cons.mp sorted).1 z further
      have same := eq_of_orderKey_eq (le_antisymm below (least y List.mem_cons_self))
      exact ⟨rest, by rw [same]⟩

theorem near_self (finite : z.isFinite = true) : Near z z := near_of_value_eq finite finite rfl

theorem separate_copy (finite : z.isFinite = true) (kept : Float32) (zs : List Float32) :
    separate kept (z :: z :: zs) = separate kept (z :: zs) := by
  have merges : separate z (z :: zs) = separate z zs := if_pos (near_self finite)
  by_cases near : Near z kept
  · exact if_pos near
  · calc
      separate kept (z :: z :: zs) = z :: separate z (z :: zs) := if_neg near
      _ = z :: separate z zs := by rw [merges]
      _ = separate kept (z :: zs) := (if_neg near).symm

theorem separate_dedup (kept : Float32) (finite : ∀ z ∈ zs, z.isFinite = true)
    (sorted : zs.Pairwise fun a b => orderKey a ≤ orderKey b) : separate kept zs.dedup = separate kept zs := by
  induction zs generalizing kept with
  | nil => rfl
  | cons z zs step =>
    obtain ⟨zFinite, finite⟩ := List.forall_mem_cons.mp finite
    have later (kept : Float32) := step kept finite sorted.of_cons
    by_cases again : z ∈ zs
    · obtain ⟨rest, rfl⟩ := copy_follows sorted again
      rw [List.dedup_cons_of_mem again, later, separate_copy zFinite]
    · rw [List.dedup_cons_of_notMem again]
      simp only [separate, later]

theorem spaced_dedup (finite : ∀ z ∈ zs, z.isFinite = true)
    (sorted : zs.Pairwise fun a b => orderKey a ≤ orderKey b) : spaced zs.dedup = spaced zs := by
  induction zs with
  | nil => rfl
  | cons z zs step =>
    obtain ⟨zFinite, finite⟩ := List.forall_mem_cons.mp finite
    by_cases again : z ∈ zs
    · rw [List.dedup_cons_of_mem again, step finite sorted.of_cons]
      obtain ⟨rest, rfl⟩ := copy_follows sorted again
      have merges : separate z (z :: rest) = separate z rest := if_pos (near_self zFinite)
      exact congrArg (z :: ·) merges.symm
    · rw [List.dedup_cons_of_notMem again]
      exact congrArg (z :: ·) (separate_dedup z finite sorted.of_cons)

theorem heights_eq_dedup (zs : List Float32) : heights zs = spaced (ordered zs).dedup := by
  rw [heights_eq, spaced_dedup (fun z member => (mem_ordered.mp member).2) (pairwise_ordered zs)]

/-- Streams with the same finite heights keep the same ones. -/
theorem heights_of_same (same : ∀ z, z.isFinite = true → (z ∈ xs ↔ z ∈ ys)) : heights xs = heights ys := by
  have members (z : Float32) : z ∈ (ordered xs).dedup ↔ z ∈ (ordered ys).dedup := by
    rw [List.mem_dedup, List.mem_dedup, mem_ordered, mem_ordered]
    exact and_congr_left (same z)
  have perm := (List.perm_ext_iff_of_nodup (List.nodup_dedup _) (List.nodup_dedup _)).mpr members
  have sorted (zs : List Float32) := (pairwise_ordered zs).sublist (List.dedup_sublist _)
  have antisymm (a b : Float32) (le : orderKey a ≤ orderKey b) (ge : orderKey b ≤ orderKey a) : a = b :=
    eq_of_orderKey_eq (le_antisymm le ge)
  rw [heights_eq_dedup, heights_eq_dedup,
    List.Perm.eq_of_pairwise (fun a b _ _ => antisymm a b) (sorted xs) (sorted ys) perm]

/-! ### Gaps -/

/-- The computed gap between two heights that are kept. It may be infinite. -/
theorem Apart.gap (apart : Apart a b) (left : a.isFinite = true) (right : b.isFinite = true) :
    (b - a).isNaN = false ∧ value tolerance < extended (b - a) := by
  obtain ⟨number, compares⟩ := extended_sub right left
  have below := apart.below
  have far := apart.far
  have small := (le_abs_self _).trans_lt (Single.abs_value_lt tolerance)
  rw [near_iff right left, abs_of_nonneg (rounded_nonneg (by linarith)), not_le] at far
  refine ⟨number, ?_⟩
  rw [compares]
  exact lt_max_of_lt_right (lt_min small far)

theorem Apart.tolerance_lt (apart : Apart a b) (left : a.isFinite = true) (right : b.isFinite = true) :
    tolerance < b - a := by
  obtain ⟨number, gap⟩ := apart.gap left right
  rwa [lt_iff_extended (isNaN_of_isFinite isFinite_tolerance) number, extended_eq isFinite_tolerance]

theorem Apart.range_pos (apart : Apart a b) (left : a.isFinite = true) (right : b.isFinite = true) : 0 < b - a := by
  obtain ⟨number, gap⟩ := apart.gap left right
  have zero : (0 : Float32).isNaN = false ∧ extended 0 = 0 := by decide +kernel
  rw [lt_iff_extended zero.1 number, zero.2]
  exact value_tolerance_pos.trans gap

theorem sub_le_of_near (near : Near b a) (left : a.isFinite = true) (right : b.isFinite = true) :
    b - a ≤ tolerance := by
  have finite := isFinite_of_abs_le near isFinite_tolerance
  rw [near_iff right left] at near
  rw [le_iff finite isFinite_tolerance, (rounds_sub right left).value finite]
  exact (le_abs_self _).trans near

theorem sub_self_of_finite (finite : a.isFinite = true) : a - a = 0 := by
  have difference : (a - a).isFinite = true := by
    rw [Single.isFinite_sub_iff, sub_self]
    exact ⟨finite, finite, by norm_num [Single.InRange]⟩
  refine (Single.level_sub_self a).resolve_right fun nothing => ?_
  rw [nothing] at difference
  exact absurd difference (by decide)

theorem first_level (apart : (low :: next :: later).Pairwise Apart)
    (finite : ∀ h ∈ low :: next :: later, h.isFinite = true) {l : DepthLevel} {rest : List DepthLevel}
    (head : (ofHeights (low :: next :: later)).levels = l :: rest) : l.level = 0 := by
  have top : (next :: later).getLast (by simp) ∈ next :: later := List.getLast_mem _
  have lowFinite := finite low List.mem_cons_self
  have range := ((List.pairwise_cons.mp apart).1 _ top).range_pos lowFinite (finite _ (List.mem_cons_of_mem _ top))
  cases head
  change (low - low) / ((next :: later).getLast _ - low) = 0
  rw [sub_self_of_finite lowFinite]
  exact zero_div_of_pos range

/-! ### The map of a set -/

/-- A map stands for a stream of heights: its entries are clearly apart and come from the stream, and all that is
finite there is at one of them or within the tolerance above it. -/
structure StandsFor (m : DepthMap) (zs : List Float32) : Prop where
  empty_iff : m.levels = [] ↔ ∀ z ∈ zs, z.isFinite = false
  among : ∀ l ∈ m.levels, l.z ∈ zs
  apart : m.levels.Pairwise fun a b => a.z < b.z ∧ tolerance < b.z - a.z
  covers : ∀ z ∈ zs, z.isFinite = true → ∃ l ∈ m.levels, l.z ≤ z ∧ z - l.z ≤ tolerance
  single : ∀ l, m.levels = [l] → l.level = 0.5
  first : ∀ l next later, m.levels = l :: next :: later → l.level = 0

theorem covering_entry (member : z ∈ zs) (finite : z.isFinite = true) :
    ∃ l ∈ (ofList zs).levels, l.z ≤ z ∧ z - l.z ≤ tolerance := by
  obtain ⟨h, kept, covers⟩ := covered_heights member finite
  obtain ⟨l, among, rfl⟩ := exists_entry kept
  have lFinite := entry_finite among
  exact ⟨l, among, (le_iff lFinite finite).mpr covers.below, sub_le_of_near covers.near lFinite finite⟩

theorem standsFor_ofList (zs : List Float32) : (ofList zs).StandsFor zs where
  empty_iff := by
    constructor
    · intro none z member
      rw [Bool.eq_false_iff]
      intro finite
      obtain ⟨l, among, -⟩ := covering_entry member finite
      rw [none] at among
      cases among
    · intro infinite
      rw [List.eq_nil_iff_forall_not_mem]
      intro l among
      have origin := mem_of_mem_heights (mem_heights_of_mem among)
      rw [infinite l.z origin.1] at origin
      cases origin.2
  among l among := (mem_of_mem_heights (mem_heights_of_mem among)).1
  apart := by
    refine (ascending_levels zs).imp_of_mem fun left right less => ⟨less, ?_⟩
    exact (apart_of_lt left right less).tolerance_lt (entry_finite left) (entry_finite right)
  covers z member finite := covering_entry member finite
  single l alone := by
    have apart := apart_heights zs
    have among : l ∈ (ofList zs).levels := by rw [alone]; exact List.mem_singleton_self l
    rcases level_eq apart among with ⟨middle, -⟩ | ⟨low, lowMem, top, topMem, -, distinct, -⟩
    · exact middle
    · -- A range has two entries.
      have one : heights zs = [l.z] := by rw [← map_z_ofHeights (heights zs)]; exact congrArg _ alone
      rw [one, List.mem_singleton] at lowMem topMem
      exact absurd distinct.below (by rw [lowMem, topMem]; exact lt_irrefl _)
  first l next later several := by
    have two : heights zs = l.z :: next.z :: later.map DepthLevel.z := by
      rw [← map_z_ofHeights (heights zs)]
      exact congrArg _ several
    have apart := apart_heights zs
    have finite (h : Float32) (member : h ∈ heights zs) := (mem_of_mem_heights member).2
    unfold ofList at several
    rw [two] at several apart finite
    exact first_level apart finite several

/-- The map of a stream stands for it, and it is the map of every stream with the same finite heights: their order,
copies, and what is not finite make no difference. -/
theorem map_of_finite_heights (zs : List Float32) : (ofList zs).StandsFor zs ∧
    ∀ ys, (∀ z, z.isFinite = true → (z ∈ ys ↔ z ∈ zs)) → ofList ys = ofList zs :=
  ⟨standsFor_ofList zs, fun _ same => congrArg ofHeights (heights_of_same same)⟩

/-- The layers in another order, one of them twice, with heights in between that are none. -/
def scatteredLayers : List Float32 := [4, Single.notANumber, 0.00005, -1, 0, infinity, -1.00005, 4]

theorem scattered_layers_same : (ofList layers).StandsFor layers ∧ ofList scatteredLayers = ofList layers := by
  obtain ⟨stands, same⟩ := map_of_finite_heights layers
  refine ⟨stands, same scatteredLayers fun z finite => ?_⟩
  have number : z ≠ Single.notANumber := by
    rintro rfl
    exact absurd finite (by decide)
  have bounded : z ≠ infinity := by
    rintro rfl
    exact absurd finite (by decide)
  simp only [scatteredLayers, layers, List.mem_cons, List.not_mem_nil, number, bounded]
  grind

end Toolpath.DepthMap

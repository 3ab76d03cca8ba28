import Mathlib
import Toolpath.Depth
import Toolpath.Proofs.Binary.Extended
import Toolpath.Proofs.Binary.Order

/-!
# The heights that are kept

The heights of a map ascend, and no two of them are within the tolerance of each other. Every finite height of the
stream is at one of them, or above it within the tolerance.
-/

namespace Toolpath.DepthMap

open Position (tolerance)
open Single (clipped_mono clipped_value exact_value extended extended_sub isFinite_of_abs_le le_iff orderKey rounded
  rounded_le rounded_mono rounded_neg rounded_nonneg rounded_zero rounds_sub value value_abs value_le_of_orderKey_le)

variable {a b c h kept z : Float32} {hs sorted zs : List Float32}

/-! ### The tolerance -/

/-- Within the tolerance of the second, as far as single precision tells. -/
def Near (a b : Float32) : Prop := (a - b).abs ≤ tolerance

theorem isFinite_tolerance : tolerance.isFinite = true := by decide +kernel

theorem value_tolerance_pos : 0 < value tolerance := by decide +kernel

section Finite

variable (left : a.isFinite = true) (right : b.isFinite = true)
include left right

theorem near_iff : Near a b ↔ |rounded (value a - value b)| ≤ value tolerance := by
  have rounds := rounds_sub left right
  have small := Single.abs_value_lt tolerance
  constructor
  · intro near
    have finite := isFinite_of_abs_le near isFinite_tolerance
    rwa [Near, le_iff (Single.isFinite_abs_of finite) isFinite_tolerance, value_abs finite, rounds.value finite] at near
  · intro near
    have finite : (a - b).isFinite = true :=
      rounds.finite_iff.mpr (Single.abs_rounded_lt_iff.mp
        (near.trans_lt (lt_of_le_of_lt (le_abs_self _) small)))
    rwa [Near, le_iff (Single.isFinite_abs_of finite) isFinite_tolerance, value_abs finite, rounds.value finite]

theorem near_comm : Near a b ↔ Near b a := by
  rw [near_iff left right, near_iff right left, ← neg_sub (value a) (value b), rounded_neg, abs_neg]

theorem near_of_value_eq (same : value a = value b) : Near a b := by
  rw [near_iff left right, same, sub_self, rounded_zero, abs_zero]
  exact value_tolerance_pos.le

end Finite

/-- What lies between two heights near each other is near the lower one, and the upper one near it. -/
theorem Near.between (near : Near c a) (below : value a ≤ value b) (above : value b ≤ value c)
    (first : a.isFinite = true) (second : b.isFinite = true) (third : c.isFinite = true) : Near b a ∧ Near c b := by
  rw [near_iff third first, abs_of_nonneg (rounded_nonneg (by linarith))] at near
  rw [near_iff second first, near_iff third second, abs_of_nonneg (rounded_nonneg (by linarith)),
    abs_of_nonneg (rounded_nonneg (by linarith))]
  exact ⟨(rounded_mono (by linarith)).trans near, (rounded_mono (by linarith)).trans near⟩

/-! ### Separation -/

/-- The second height is kept beside the first. -/
structure Apart (a b : Float32) : Prop where
  below : value a < value b
  far : ¬ Near b a

/-- The rounded bound of a search lies between the height and everything that is kept below the height. -/
theorem bound_between (finite : z.isFinite = true) : (z - tolerance).isNaN = false ∧
    extended (z - tolerance) ≤ value z ∧ ∀ a, a.isFinite = true → Apart a z → value a ≤ extended (z - tolerance) := by
  obtain ⟨number, compares⟩ := extended_sub finite isFinite_tolerance
  rw [compares]
  refine ⟨number, ?_, fun a aFinite apart => ?_⟩
  · exact (clipped_mono (by linarith [value_tolerance_pos])).trans_eq (clipped_value z)
  · have below := apart.below
    have far := apart.far
    rw [near_iff finite aFinite, abs_of_nonneg (rounded_nonneg (by linarith))] at far
    have distance : value tolerance < value z - value a := by
      by_contra close
      exact far (rounded_le (exact_value tolerance) (not_lt.mp close))
    exact (clipped_value a).symm.trans_le (clipped_mono (by linarith))

/-- The second height is the first, or merges into it. -/
structure Covers (h z : Float32) : Prop where
  below : value h ≤ value z
  near : Near z h

/-- Heights that stand for all of a list. -/
structure Separated (hs zs : List Float32) : Prop where
  kept : hs.Sublist zs
  apart : hs.Pairwise Apart
  covered : ∀ z ∈ zs, ∃ h ∈ hs, Covers h z

/-- Finite heights from the lowest to the highest. -/
structure Ascending (zs : List Float32) : Prop where
  order : zs.Pairwise fun a b => value a ≤ value b
  finite : ∀ z ∈ zs, z.isFinite = true

theorem Ascending.sublist {ys : List Float32} (ascending : Ascending zs) (sub : ys.Sublist zs) : Ascending ys :=
  ⟨ascending.order.sublist sub, fun z member => ascending.finite z (sub.subset member)⟩

theorem Covers.refl (finite : z.isFinite = true) : Covers z z := ⟨le_rfl, near_of_value_eq finite finite rfl⟩

theorem separated_separate (kept : Float32) (zs : List Float32) (ascending : Ascending (kept :: zs)) :
    Separated (kept :: separate kept zs) (kept :: zs) := by
  have keptFinite := ascending.finite kept List.mem_cons_self
  have order := List.pairwise_cons.mp ascending.order
  induction zs generalizing kept with
  | nil =>
    refine ⟨List.Sublist.refl _, List.pairwise_singleton _ _, fun z member => ⟨kept, List.mem_cons_self, ?_⟩⟩
    obtain rfl := List.mem_singleton.mp member
    exact Covers.refl keptFinite
  | cons z zs step =>
    have zFinite := ascending.finite z (List.mem_cons_of_mem _ List.mem_cons_self)
    have rest : Ascending (z :: zs) := ascending.sublist (List.sublist_cons_self _ _)
    have above := order.1 z List.mem_cons_self
    rw [separate]
    split
    · next near =>
      -- It merges into the height that was kept last.
      have skip : (kept :: zs).Sublist (kept :: z :: zs) := (List.sublist_cons_self _ _).cons_cons _
      have without : Ascending (kept :: zs) := ascending.sublist skip
      obtain ⟨sub, apart, covered⟩ := step kept without keptFinite (List.pairwise_cons.mp without.order)
      refine ⟨sub.trans skip, apart, fun y member => ?_⟩
      rcases List.mem_cons.mp member with rfl | member
      · exact ⟨y, List.mem_cons_self, Covers.refl keptFinite⟩
      · rcases List.mem_cons.mp member with rfl | member
        · exact ⟨kept, List.mem_cons_self, above, near⟩
        · exact covered y (List.mem_cons_of_mem _ member)
    · next far =>
      obtain ⟨sub, apart, covered⟩ := step z rest zFinite (List.pairwise_cons.mp rest.order)
      refine ⟨sub.cons_cons _, List.pairwise_cons.mpr ⟨fun h member => ?_, apart⟩, fun y member => ?_⟩
      · -- What is kept later lies no lower than this one.
        have later := sub.subset member
        have hFinite := rest.finite h later
        have least : value z ≤ value h := by
          rcases List.mem_cons.mp later with rfl | later
          · exact le_rfl
          · exact (List.pairwise_cons.mp rest.order).1 h later
        have beyond : ¬ Near h kept := fun near => far (near.between above least keptFinite zFinite hFinite).1
        refine ⟨lt_of_le_of_ne (above.trans least) fun same => beyond ?_, beyond⟩
        exact near_of_value_eq hFinite keptFinite same.symm
      · rcases List.mem_cons.mp member with rfl | member
        · exact ⟨y, List.mem_cons_self, Covers.refl keptFinite⟩
        · obtain ⟨h, member, covers⟩ := covered y member
          exact ⟨h, List.mem_cons_of_mem _ member, covers⟩

/-! ### The heights of a stream -/

/-- Finite heights in the order in which they are merged. -/
def ordered (zs : List Float32) : List Float32 :=
  (zs.filter Float32.isFinite).mergeSort fun a b => orderKey a ≤ orderKey b

/-- The heights that are kept of a list in order. -/
def spaced : List Float32 → List Float32
  | [] => []
  | z :: later => z :: separate z later

theorem heights_eq (zs : List Float32) : heights zs = spaced (ordered zs) := by
  unfold heights ordered
  generalize (zs.filter Float32.isFinite).mergeSort (fun a b => orderKey a ≤ orderKey b) = list
  cases list with
  | nil => rfl
  | cons z later => rfl

theorem mem_ordered : z ∈ ordered zs ↔ z ∈ zs ∧ z.isFinite = true := by
  rw [ordered, List.mem_mergeSort, List.mem_filter]

theorem pairwise_ordered (zs : List Float32) : (ordered zs).Pairwise fun a b => orderKey a ≤ orderKey b := by
  have trans (a b c : Float32) : decide (orderKey a ≤ orderKey b) → decide (orderKey b ≤ orderKey c) →
      decide (orderKey a ≤ orderKey c) := by simpa using le_trans
  have total (a b : Float32) : decide (orderKey a ≤ orderKey b) || decide (orderKey b ≤ orderKey a) := by
    simpa using le_total (orderKey a) (orderKey b)
  exact (List.pairwise_mergeSort trans total (zs.filter Float32.isFinite)).imp of_decide_eq_true

theorem ascending_ordered (zs : List Float32) : Ascending (ordered zs) where
  order := (pairwise_ordered zs).imp_of_mem fun left right le =>
    value_le_of_orderKey_le (mem_ordered.mp left).2 (mem_ordered.mp right).2 le
  finite _ member := (mem_ordered.mp member).2

theorem separated_heights (zs : List Float32) : Separated (heights zs) (ordered zs) := by
  have ascending := ascending_ordered zs
  rw [heights_eq]
  cases list : ordered zs with
  | nil => exact ⟨List.Sublist.refl _, List.Pairwise.nil, nofun⟩
  | cons z later => exact separated_separate z later (list ▸ ascending)

/-- A stream that ascends already is separated as it stands. -/
theorem heights_of_ordered {later : List Float32} (finite : ∀ h ∈ z :: later, h.isFinite = true)
    (sorted : (z :: later).Pairwise fun a b => orderKey a ≤ orderKey b) :
    heights (z :: later) = z :: separate z later := by
  unfold heights
  rw [List.filter_eq_self.mpr finite, List.mergeSort_of_pairwise (sorted.imp decide_eq_true)]

theorem apart_heights (zs : List Float32) : (heights zs).Pairwise Apart := (separated_heights zs).apart

theorem mem_of_mem_heights (member : h ∈ heights zs) : h ∈ zs ∧ h.isFinite = true :=
  mem_ordered.mp ((separated_heights zs).kept.subset member)

theorem covered_heights (member : z ∈ zs) (finite : z.isFinite = true) : ∃ h ∈ heights zs, Covers h z :=
  (separated_heights zs).covered z (mem_ordered.mpr ⟨member, finite⟩)

/-- Of two heights one is kept beside the other, unless they are the same. -/
theorem eq_or_apart (left : a ∈ heights zs) (right : b ∈ heights zs) : a = b ∨ Apart a b ∨ Apart b a := by
  have symmetric : Std.Symm fun a b => Apart a b ∨ Apart b a := ⟨fun _ _ => Or.symm⟩
  have either : (heights zs).Pairwise fun a b => Apart a b ∨ Apart b a := (apart_heights zs).imp Or.inl
  by_cases same : a = b
  · exact Or.inl same
  · exact Or.inr (either.forall left right same)

/-- The height that covers another is the greatest one not above it. -/
theorem Covers.greatest (covers : Covers h z) (left : h ∈ heights zs) (right : a ∈ heights zs)
    (finite : z.isFinite = true) (below : value a ≤ value z) : value a ≤ value h := by
  rcases eq_or_apart right left with rfl | apart | apart
  · exact le_rfl
  · exact apart.below.le
  · exact absurd (covers.near.between apart.below.le below (mem_of_mem_heights left).2 (mem_of_mem_heights right).2
      finite).1 apart.far

end Toolpath.DepthMap

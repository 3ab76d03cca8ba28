import Mathlib.Algebra.Order.Floor.Div
import Mathlib.Data.List.Forall2
import Toolpath.Proofs.Detail.Kept

/-!
# Simplifying thins and does nothing else

`simplify_thins` says what is left of a list of segments: every segment is there, with its ends and in its
order, and of a long one every sharp turn and at least one point in every stride.
-/

namespace Toolpath.Detail

/-- Detail is to be reduced: the budget sets a limit, and the segments have more points than that. -/
def Overfull (settings : DetailSettings) (budget : Nat) (ss : List Segment) : Prop :=
  0 < budget ∧ settings.enabled = true ∧ budget < Segment.totalLength ss

instance (settings : DetailSettings) (budget : Nat) (ss : List Segment) :
    Decidable (Overfull settings budget ss) :=
  inferInstanceAs (Decidable (_ ∧ _ ∧ _))

/-- Indices into a polyline that thinning in strides leaves. -/
structure Picks (stride : Nat) (points : List Position) (indices : List Nat) : Prop where
  rising : indices.Pairwise (· < ·)
  mem_iff : ∀ i, i ∈ indices ↔ i < points.length ∧
    (i = 0 ∨ i + 1 = points.length ∨ stride ∣ i ∨ sharpAt points i = true)
  gaps : indices.IsChain fun i j => j ≤ i + stride

/-- A polyline is what thinning in strides leaves of another one. -/
structure Thinned (stride : Nat) (points rest : List Position) : Prop where
  proper : 2 ≤ stride
  picked : ∃ indices, Picks stride points indices ∧ rest.map some = indices.map (points[·]?)
  /-- The three points that decide about a turn exist at every index in question. -/
  turns : ∀ i, 0 < i → i + 1 < points.length → ∃ before here after, points[i - 1]? = some before ∧
    points[i]? = some here ∧ points[i + 1]? = some after ∧
    sharpAt points i = turnsBelow sharpTurn before here after

/-- A segment without some of its inner points. -/
structure Reduced (s t : Segment) : Prop where
  travel : t.travel = s.travel
  points : t.points.Sublist s.points
  first : t.points.head? = s.points.head?
  last : t.points.getLast? = s.points.getLast?
  short : s.length ≤ wholeLength → t = s

variable {settings : DetailSettings} {budget : Nat} {ss : List Segment}

theorem simplify_of_overfull (exceeds : Overfull settings budget ss) :
    simplify settings budget ss =
      ss.map (simplifySegment settings (generalStride (Segment.totalLength ss) budget)) := by
  obtain ⟨limited, enabled, more⟩ := exceeds
  have decided : (budget = 0 || !settings.enabled || Segment.totalLength ss ≤ budget) = false := by
    simp [enabled, Nat.ne_of_gt limited, more]
  simp only [simplify, decided, Bool.false_eq_true, ↓reduceIte]

theorem simplify_of_not_overfull (fits : ¬ Overfull settings budget ss) : simplify settings budget ss = ss := by
  have decided : (budget = 0 || !settings.enabled || Segment.totalLength ss ≤ budget) = true := by
    by_contra refused
    simp only [Bool.or_eq_true, decide_eq_true_eq, Bool.not_eq_true', not_or, Bool.not_eq_false] at refused
    exact fits ⟨Nat.pos_of_ne_zero refused.1.1, refused.1.2, by omega⟩
  simp only [simplify, decided, ↓reduceIte]

/-! ### Strides -/

theorem generalStride_eq_ceilDiv (exceeds : Overfull settings budget ss) :
    generalStride (Segment.totalLength ss) budget = Segment.totalLength ss ⌈/⌉ budget := by
  obtain ⟨limited, _, more⟩ := exceeds
  have positive : 1 ≤ (Segment.totalLength ss + budget - 1) / budget :=
    Nat.div_pos (by omega) limited
  rw [generalStride, Nat.ceilDiv_eq_add_pred_div, max_eq_left positive]

theorem two_le_generalStride (exceeds : Overfull settings budget ss) :
    2 ≤ generalStride (Segment.totalLength ss) budget := by
  obtain ⟨limited, _, more⟩ := exceeds
  have two : 2 ≤ (Segment.totalLength ss + budget - 1) / budget :=
    (Nat.le_div_iff_mul_le limited).mpr (by omega)
  exact two.trans (le_max_left ..)

theorem strideOf_eq (exceeds : Overfull settings budget ss) (s : Segment) :
    strideOf settings (generalStride (Segment.totalLength ss) budget) s =
      if isPreserved settings s then max 2 (s.length / 20) else Segment.totalLength ss ⌈/⌉ budget := by
  rw [strideOf, featureStride, max_comm, generalStride_eq_ceilDiv exceeds]

theorem two_le_strideOf (exceeds : Overfull settings budget ss) (s : Segment) :
    2 ≤ strideOf settings (generalStride (Segment.totalLength ss) budget) s := by
  unfold strideOf featureStride
  split
  · exact le_max_right ..
  · exact two_le_generalStride exceeds

/-! ### Segments -/

theorem picks_kept {stride : Nat} (positive : 0 < stride) (points : List Position) :
    Picks stride points (kept stride points) :=
  ⟨rising_kept stride points, fun _ => mem_kept, isChain_kept positive points⟩

theorem thinned_thin {stride : Nat} (two : 2 ≤ stride) (points : List Position) :
    Thinned stride points (thin stride points) :=
  { proper := two
    picked := ⟨_, picks_kept (by omega) points, map_some_thin stride points⟩
    turns := fun _ afterFirst beforeLast => sharpAt_inner afterFirst beforeLast }

theorem simplifySegment_of_short {s : Segment} (general : Nat) (short : s.length ≤ wholeLength) :
    simplifySegment settings general s = s := by
  simp only [simplifySegment, short, ↓reduceIte]

theorem simplifySegment_of_long {s : Segment} (general : Nat) (long : wholeLength < s.length) :
    simplifySegment settings general s = ⟨thin (strideOf settings general s) s.points, s.travel⟩ := by
  simp only [simplifySegment, Nat.not_le.mpr long, ↓reduceIte]

/-- All that matters to a segment is the stride it is thinned in, and only if it is long. -/
theorem simplifySegment_congr {other : DetailSettings} {s : Segment} {a b : Nat}
    (agree : wholeLength < s.length → strideOf settings a s = strideOf other b s) :
    simplifySegment settings a s = simplifySegment other b s := by
  by_cases short : s.length ≤ wholeLength
  · rw [simplifySegment_of_short a short, simplifySegment_of_short b short]
  · have long := Nat.not_le.mp short
    rw [simplifySegment_of_long a long, simplifySegment_of_long b long, agree long]

theorem reduced_refl (s : Segment) : Reduced s s := ⟨rfl, List.Sublist.refl _, rfl, rfl, fun _ => rfl⟩

theorem totalLength_le_of_reduced {ts : List Segment} (reduced : List.Forall₂ Reduced ss ts) :
    Segment.totalLength ts ≤ Segment.totalLength ss := by
  induction reduced with
  | nil => exact Nat.le_refl _
  | cons first _ ih => exact Nat.add_le_add first.points.length_le ih

theorem reduced_simplifySegment (general : Nat) (s : Segment) :
    Reduced s (simplifySegment settings general s) := by
  by_cases short : s.length ≤ wholeLength
  · rw [simplifySegment_of_short general short]
    exact reduced_refl s
  · rw [simplifySegment_of_long general (Nat.not_le.mp short)]
    exact ⟨rfl, thin_sublist _ _, head?_thin _ _, getLast?_thin _ _, fun contrary => absurd contrary short⟩

theorem reduced_simplify (settings : DetailSettings) (budget : Nat) (ss : List Segment) :
    List.Forall₂ Reduced ss (simplify settings budget ss) := by
  by_cases exceeds : Overfull settings budget ss
  · rw [simplify_of_overfull exceeds, List.forall₂_map_right_iff, List.forall₂_same]
    exact fun s _ => reduced_simplifySegment _ s
  · rw [simplify_of_not_overfull exceeds, List.forall₂_same]
    exact fun s _ => reduced_refl s

/-- Simplifying keeps every segment with its kind and its ends and leaves out inner points only. It leaves
everything as it is unless the segments exceed the budget, and then thins the long ones: small features in
strides of their own, if these are preserved, and the others in strides of their share of the budget. -/
theorem simplify_thins (settings : DetailSettings) (budget : Nat) (ss : List Segment) :
    List.Forall₂ Reduced ss (simplify settings budget ss) ∧
      (¬ Overfull settings budget ss → simplify settings budget ss = ss) ∧
      (Overfull settings budget ss →
        List.Forall₂
          (fun s t => wholeLength < s.length →
            Thinned
              (if isPreserved settings s then max 2 (s.length / 20)
                else Segment.totalLength ss ⌈/⌉ budget)
              s.points t.points)
          ss (simplify settings budget ss)) := by
  refine ⟨reduced_simplify settings budget ss, simplify_of_not_overfull, ?_⟩
  intro exceeds
  rw [simplify_of_overfull exceeds, List.forall₂_map_right_iff, List.forall₂_same]
  intro s _ long
  rw [← strideOf_eq exceeds, simplifySegment_of_long _ long]
  exact thinned_thin (two_le_strideOf exceeds s) s.points

/-- Nine points in a straight line. -/
def row : Segment := ⟨(List.range 9).map fun i => ⟨Float32.ofNat i, 0, 0⟩, false⟩

theorem row_thinned :
    Overfull {} 4 [row] ∧ wholeLength < row.length ∧
      ∃ t, simplify {} 4 [row] = [t] ∧ Thinned 3 row.points t.points := by
  have exceeds : Overfull {} 4 [row] := by decide
  have long : wholeLength < row.length := by decide
  have stride : (if isPreserved {} row then max 2 (row.length / 20) else Segment.totalLength [row] ⌈/⌉ 4) = 3 := by
    decide +kernel
  obtain ⟨t, _, thinned, rest, one⟩ := List.forall₂_cons_left_iff.mp ((simplify_thins {} 4 [row]).2.2 exceeds)
  rw [List.forall₂_nil_left_iff.mp rest] at one
  exact ⟨exceeds, long, t, one, stride ▸ thinned long⟩

end Toolpath.Detail

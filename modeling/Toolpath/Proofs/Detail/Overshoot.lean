import Toolpath.Proofs.Detail.SmallFeatures
import Toolpath.Proofs.Detail.Tiers

/-!
# Points beyond the budget

The stride of the budget is chosen as if all points were in one line, so that the points on it are within the budget.
What comes on top of them does not depend on the budget: short segments, small features, and of all other segments
the ends and the sharp turns. `overshoot_le` adds it up.
-/

namespace Toolpath.Detail

def isShort (s : Segment) : Bool := s.length ≤ wholeLength

/-- The segment is thinned in a stride of its own. -/
def isFeature (settings : DetailSettings) (s : Segment) : Bool := wholeLength < s.length && isPreserved settings s

def shortPoints (ss : List Segment) : Nat := Segment.totalLength (ss.filter isShort)

/-- The points that are left of the small features among the segments. -/
def featurePoints (settings : DetailSettings) (ss ts : List Segment) : Nat :=
  (((ss.zip ts).filter fun (s, _) => isFeature settings s).map fun (_, t) => t.length).sum

/-- The ends and the sharp turns of the segments that are thinned in the stride of the budget. -/
def fixedPoints (settings : DetailSettings) (ss : List Segment) : Nat :=
  ((budgeted settings ss).map fun s => 2 + turns s.points).sum

/-- The inner points on the stride of the budget. -/
def stridePoints (settings : DetailSettings) (stride : Nat) (ss : List Segment) : Nat :=
  ((budgeted settings ss).map fun s => (s.length - 2) / stride).sum

variable {settings : DetailSettings} {budget : Nat} {ss : List Segment}

/-- A segment is short, a small feature, or thinned in the stride of the budget, and only one of these. -/
theorem kind_cases (settings : DetailSettings) (s : Segment) :
    (isShort s = true ∧ isFeature settings s = false ∧ isBudgeted settings s = false) ∨
      (isShort s = false ∧ (isFeature settings s = true ∧ isBudgeted settings s = false ∨
        isFeature settings s = false ∧ isBudgeted settings s = true)) := by
  unfold isShort isFeature isBudgeted
  by_cases short : s.length ≤ wholeLength
  · simp [short, Nat.not_lt.mpr short]
  · cases isPreserved settings s <;> simp [short, Nat.not_le.mp short]

theorem length_thin_le {points : List Position} (stride : Nat) (two : 2 ≤ points.length) :
    (thin stride points).length ≤ (points.length - 2) / stride + (2 + turns points) := by
  have := length_thin_add_turnsOn stride two
  omega

theorem length_simplifySegment_of_budgeted {s : Segment} (general : Nat) (counts : isBudgeted settings s = true) :
    (simplifySegment settings general s).length ≤ (s.length - 2) / general + (2 + turns s.points) := by
  have long : wholeLength < s.length := by
    simp only [isBudgeted, Bool.and_eq_true, decide_eq_true_eq] at counts
    exact counts.1
  rw [simplifySegment_of_budgeted general counts]
  exact length_thin_le general (le_trans (by decide) (Nat.le_of_lt long))

/-- Every segment counts once: as short, as a small feature, or with its ends, its turns and the points on the
stride. -/
theorem totalLength_simplified_le (settings : DetailSettings) (general : Nat) (ss : List Segment) :
    Segment.totalLength (ss.map (simplifySegment settings general)) ≤
      stridePoints settings general ss + shortPoints ss +
        featurePoints settings ss (ss.map (simplifySegment settings general)) + fixedPoints settings ss := by
  induction ss with
  | nil => exact Nat.zero_le _
  | cons s ss ih =>
    unfold stridePoints shortPoints featurePoints fixedPoints budgeted at ih ⊢
    simp only [List.map_cons, List.zip_cons_cons, List.filter_cons, Segment.totalLength] at ih ⊢
    rcases kind_cases settings s with ⟨short, other⟩ | ⟨long, ⟨feature, other⟩ | ⟨other, counts⟩⟩
    · have whole : simplifySegment settings general s = s :=
        simplifySegment_of_short general (of_decide_eq_true short)
      simp only [short, other, whole, if_true, Bool.false_eq_true, if_false, Segment.totalLength]
      omega
    · simp only [long, feature, other, if_true, Bool.false_eq_true, if_false, List.map_cons, List.sum_cons]
      omega
    · have bound := length_simplifySegment_of_budgeted general counts
      simp only [long, other, counts, if_true, Bool.false_eq_true, if_false, List.map_cons, List.sum_cons]
      omega

theorem stridePoints_le (settings : DetailSettings) (stride : Nat) (ss : List Segment) :
    stridePoints settings stride ss ≤ Segment.totalLength ss / stride := by
  induction ss with
  | nil => exact Nat.zero_le _
  | cons s ss ih =>
    unfold stridePoints budgeted at ih ⊢
    have together : s.length / stride + Segment.totalLength ss / stride ≤ (s.length + Segment.totalLength ss) / stride :=
      Nat.div_add_div_le_add_div
    rw [List.filter_cons, Segment.totalLength]
    refine le_trans ?_ together
    split
    · rw [List.map_cons, List.sum_cons]
      exact Nat.add_le_add (Nat.div_le_div_right (Nat.sub_le _ 2)) ih
    · exact Nat.le_add_left_of_le ih

theorem stridePoints_le_budget (exceeds : Overfull settings budget ss) :
    stridePoints settings (generalStride (Segment.totalLength ss) budget) ss ≤ budget := by
  refine (stridePoints_le settings _ ss).trans (Nat.div_le_of_le_mul ?_)
  rw [generalStride_eq_ceilDiv exceeds, Nat.mul_comm]
  exact (ceilDiv_le_iff_le_mul exceeds.1).mp le_rfl

/-- Segments that exceed the budget are left with no more points than the budget and what does not count against it:
the points of short segments, those left of small features that are preserved, and two ends and the sharp turns of
every other segment. -/
theorem overshoot_le (exceeds : Overfull settings budget ss) :
    Segment.totalLength (simplify settings budget ss) ≤
      budget + shortPoints ss + featurePoints settings ss (simplify settings budget ss) + fixedPoints settings ss := by
  have counted := totalLength_simplified_le settings (generalStride (Segment.totalLength ss) budget) ss
  have within := stridePoints_le_budget exceeds
  rw [simplify_of_overfull exceeds]
  omega

/-- A short segment, a small feature and a row of points. -/
def mixed : List Segment := [⟨row.points.take 3, true⟩, boss, row]

theorem mixed_overshoot :
    Overfull {} 20 mixed ∧ Segment.totalLength (simplify {} 20 mixed) ≤ 20 + 3 + 23 + 2 := by
  have exceeds : Overfull {} 20 mixed := by decide
  have bound := overshoot_le exceeds
  have short : shortPoints mixed = 3 := by decide +kernel
  have feature : featurePoints {} mixed (simplify {} 20 mixed) = 23 := by decide +kernel
  have fixed : fixedPoints {} mixed = 2 := by decide +kernel
  rw [short, feature, fixed] at bound
  exact ⟨exceeds, bound⟩

end Toolpath.Detail

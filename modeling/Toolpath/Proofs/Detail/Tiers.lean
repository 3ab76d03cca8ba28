import Mathlib.Algebra.Order.BigOperators.Group.List
import Toolpath.Proofs.Detail.Count
import Toolpath.Proofs.Detail.Thinning
import Toolpath.View.Viewer

/-!
# Coarser tiers of detail

A lower budget means a longer stride with fewer points on it. Even so it may draw more: a sharp turn on the
shorter stride costs nothing there, and one point on the longer stride, unless it lies on that one too.
`coarser_draws` says how many more points there can be, and exactly when there are none.
-/

namespace Toolpath

namespace Detail

/-- The segment is thinned in the general stride. -/
def isBudgeted (settings : DetailSettings) (s : Segment) : Bool :=
  wholeLength < s.length && !isPreserved settings s

def budgeted (settings : DetailSettings) (ss : List Segment) : List Segment := ss.filter (isBudgeted settings)

/-- The inner points on one stride together with the sharp turns on another, over all budgeted segments. -/
def inStrides (settings : DetailSettings) (points turns : Nat) (ss : List Segment) : Nat :=
  ((budgeted settings ss).map fun s => (s.length - 2) / points + turnsOn turns s.points).sum

/-- The sharp turns on the fine stride but not on the coarse one, over all budgeted segments. -/
def freedTurns (settings : DetailSettings) (fine coarse : Nat) (ss : List Segment) : Nat :=
  ((budgeted settings ss).map fun s => turnsBetween fine coarse s.points).sum

/-- How segments drawn with a low budget compare with the same ones drawn with a high budget. -/
structure Coarsens (settings : DetailSettings) (ss : List Segment) (high low : Nat) (finer coarser : List Segment) :
    Prop where
  /-- The low budget draws no more than all there is. -/
  whole : ¬ Overfull settings high ss → Segment.totalLength coarser ≤ Segment.totalLength finer
  bound : Segment.totalLength coarser ≤ Segment.totalLength finer +
    freedTurns settings (Segment.totalLength ss ⌈/⌉ high) (Segment.totalLength ss ⌈/⌉ low) ss
  fewer_iff : Overfull settings high ss →
    (Segment.totalLength coarser ≤ Segment.totalLength finer ↔
      inStrides settings (Segment.totalLength ss ⌈/⌉ low) (Segment.totalLength ss ⌈/⌉ high) ss ≤
        inStrides settings (Segment.totalLength ss ⌈/⌉ high) (Segment.totalLength ss ⌈/⌉ low) ss)

variable {settings : DetailSettings} {ss : List Segment}

theorem simplifySegment_of_budgeted {s : Segment} (general : Nat) (counts : isBudgeted settings s = true) :
    simplifySegment settings general s = ⟨thin general s.points, s.travel⟩ := by
  simp only [isBudgeted, Bool.and_eq_true, decide_eq_true_eq, Bool.not_eq_true'] at counts
  rw [simplifySegment_of_long general counts.1, strideOf, if_neg (by simp [counts.2])]

theorem simplifySegment_of_not_budgeted {s : Segment} (a b : Nat) (spared : isBudgeted settings s = false) :
    simplifySegment settings a s = simplifySegment settings b s := by
  apply simplifySegment_congr
  intro long
  have preserved : isPreserved settings s = true := by simpa [isBudgeted, long] using spared
  rw [strideOf, strideOf, if_pos preserved, if_pos preserved]

/-- Points on one stride pay for turns on the other. -/
theorem totalLength_add_inStrides (settings : DetailSettings) (a b : Nat) (ss : List Segment) :
    Segment.totalLength (ss.map (simplifySegment settings a)) + inStrides settings b a ss =
      Segment.totalLength (ss.map (simplifySegment settings b)) + inStrides settings a b ss := by
  induction ss with
  | nil => rfl
  | cons s ss ih =>
    unfold inStrides budgeted at ih ⊢
    simp only [List.map_cons, Segment.totalLength]
    cases counts : isBudgeted settings s with
    | false =>
      -- A segment without budget is drawn the same either way.
      rw [List.filter_cons_of_neg (by simp [counts]), simplifySegment_of_not_budgeted a b counts]
      omega
    | true =>
      have long : wholeLength < s.length := by
        simp only [isBudgeted, Bool.and_eq_true, decide_eq_true_eq] at counts
        exact counts.1
      have two : 2 ≤ s.points.length := le_trans (by decide) (Nat.le_of_lt long)
      have inA := length_thin_add_turnsOn a two
      have inB := length_thin_add_turnsOn b two
      rw [List.filter_cons_of_pos counts, simplifySegment_of_budgeted a counts,
        simplifySegment_of_budgeted b counts]
      simp only [List.map_cons, List.sum_cons, Segment.length] at ih ⊢
      omega

theorem inStrides_le (settings : DetailSettings) (ss : List Segment) {fine coarse : Nat} (positive : 0 < fine)
    (longer : fine ≤ coarse) :
    inStrides settings coarse fine ss ≤ inStrides settings fine coarse ss + freedTurns settings fine coarse ss := by
  unfold inStrides freedTurns
  rw [← List.sum_map_add]
  apply List.sum_le_sum
  intro s _
  have points : (s.length - 2) / coarse ≤ (s.length - 2) / fine := Nat.div_le_div_left longer positive
  have turns := turnsOn_le fine coarse s.points
  omega

theorem ceilDiv_le_ceilDiv {total low high : Nat} (limited : 0 < low) (less : low ≤ high) :
    total ⌈/⌉ high ≤ total ⌈/⌉ low := by
  rw [ceilDiv_le_iff_le_mul (Nat.lt_of_lt_of_le limited less)]
  calc
    total ≤ low * (total ⌈/⌉ low) := (ceilDiv_le_iff_le_mul limited).mp (Nat.le_refl _)
    _ ≤ high * (total ⌈/⌉ low) := Nat.mul_le_mul_right _ less

theorem coarsens_of_le {high low : Nat} (less : low ≤ high) (limited : 0 < high → 0 < low) :
    Coarsens settings ss high low (simplify settings high ss) (simplify settings low ss) := by
  by_cases exceeds : Overfull settings high ss
  · have positive := limited exceeds.1
    have exceedsLow : Overfull settings low ss := ⟨positive, exceeds.2.1, Nat.lt_of_le_of_lt less exceeds.2.2⟩
    have longer : Segment.totalLength ss ⌈/⌉ high ≤ Segment.totalLength ss ⌈/⌉ low :=
      ceilDiv_le_ceilDiv positive less
    have two := two_le_generalStride exceeds
    rw [generalStride_eq_ceilDiv exceeds] at two
    have balance := totalLength_add_inStrides settings (Segment.totalLength ss ⌈/⌉ low)
      (Segment.totalLength ss ⌈/⌉ high) ss
    have excess := inStrides_le settings ss (by omega) longer
    rw [simplify_of_overfull exceeds, simplify_of_overfull exceedsLow, generalStride_eq_ceilDiv exceeds,
      generalStride_eq_ceilDiv exceedsLow]
    exact ⟨fun fits => absurd exceeds fits, by omega, fun _ => by omega⟩
  · have less := totalLength_le_of_reduced (reduced_simplify settings low ss)
    rw [simplify_of_not_overfull exceeds]
    exact ⟨fun _ => less, Nat.le_add_right_of_le less, fun contrary => absurd contrary exceeds⟩

end Detail

namespace Level

theorem divisor_pos (level : Level) : 0 < level.divisor := by cases level <;> decide

theorem budget_pos (level : Level) {points : Nat} (limited : 0 < points) : 0 < level.budget points := by
  rw [budget, if_neg (Nat.ne_of_gt limited)]
  exact Nat.lt_of_lt_of_le Nat.one_pos (le_max_right ..)

theorem budget_le_budget {near far : Level} (farther : near.divisor ≤ far.divisor) (points : Nat) :
    far.budget points ≤ near.budget points := by
  unfold budget
  split
  · exact Nat.le_refl _
  · exact max_le_max_right 1 (Nat.div_le_div_left farther near.divisor_pos)

end Level

/-- A lower budget, or a tier further out, draws more points than a higher budget by no more than the sharp
turns that lie on the stride of the higher budget and not on that of the lower one. It draws no more points
at all if the higher budget suffices; and if not, exactly when the points on the shorter stride and the turns
on the longer one outnumber the points on the longer stride and the turns on the shorter one, or equal
them. -/
theorem coarser_draws :
    (∀ settings ss high low, 0 < low → low ≤ high →
      Detail.Coarsens settings ss high low (Detail.simplify settings high ss) (Detail.simplify settings low ss)) ∧
    ∀ (v : Viewer) (filter : Filter) (near far : Level), near.divisor ≤ far.divisor →
      Detail.Coarsens v.config.detail (v.document.filtered filter)
        (near.budget v.config.detail.pointBudget.toNat) (far.budget v.config.detail.pointBudget.toNat)
        (v.simplified filter near) (v.simplified filter far) := by
  refine ⟨?_, ?_⟩
  · intro settings ss high low limited less
    exact Detail.coarsens_of_le less fun _ => limited
  · intro v filter near far farther
    refine Detail.coarsens_of_le (Level.budget_le_budget farther _) fun limited => ?_
    -- No tier has a limit when the settings have none.
    have budgeted : 0 < v.config.detail.pointBudget.toNat := by
      by_contra unlimited
      rw [Nat.eq_zero_of_not_pos unlimited] at limited
      exact absurd limited (by simp [Level.budget])
    exact far.budget_pos budgeted

/-- Nine points up a staircase with steps of two points each, under a budget of seven. -/
def staircase : Viewer :=
  ((Viewer.ofConfig { detail := { pointBudget := 7 } }).load "G1 X1\nX2\nX3\nY1\nY2\nX4\nX5\nY3\nY4").2

theorem row_and_staircase_coarsened :
    Segment.totalLength (Detail.simplify {} 3 [Detail.row]) ≤ Segment.totalLength (Detail.simplify {} 7 [Detail.row]) ∧
      Level.full.divisor ≤ Level.medium.divisor ∧
      Segment.totalLength (staircase.simplified .all .medium) ≤
        Segment.totalLength (staircase.simplified .all .full) + 2 := by
  have straight := (coarser_draws.1 {} [Detail.row] 7 3 (by decide) (by decide)).bound
  have unbent : Detail.freedTurns {} (Segment.totalLength [Detail.row] ⌈/⌉ 7)
      (Segment.totalLength [Detail.row] ⌈/⌉ 3) [Detail.row] = 0 := by
    decide +kernel
  have farther : Level.full.divisor ≤ Level.medium.divisor := by decide
  have bent := (coarser_draws.2 staircase .all .full .medium farther).bound
  have two : Detail.freedTurns staircase.config.detail
      (Segment.totalLength (staircase.document.filtered .all) ⌈/⌉
        Level.full.budget staircase.config.detail.pointBudget.toNat)
      (Segment.totalLength (staircase.document.filtered .all) ⌈/⌉
        Level.medium.budget staircase.config.detail.pointBudget.toNat)
      (staircase.document.filtered .all) = 2 := by
    decide +kernel
  rw [unbent, Nat.add_zero] at straight
  rw [two] at bent
  exact ⟨straight, farther, bent⟩

/-- The staircase has six points on the medium tier, though only five on the full one: its corners lie on every
second point, so that every third point comes on top of them. -/
theorem staircase_draws_more :
    Segment.totalLength (staircase.simplified .all .full) = 5 ∧
      Segment.totalLength (staircase.simplified .all .medium) = 6 := by
  decide +kernel

end Toolpath

import Toolpath.Proofs.Detail.Count
import Toolpath.Proofs.Detail.Thinning

/-!
# Small features with and without preservation

A small feature that is preserved is thinned in a stride that grows with its length, any other segment in the
general stride, which grows with the excess over the budget. Neither is always the longer one.
`preserved_not_fewer_iff` says for each segment when preserving keeps at least as many of its points.
-/

namespace Toolpath.Detail

def preserving (settings : DetailSettings) : DetailSettings := { settings with keepSmallFeatures := true }

def plain (settings : DetailSettings) : DetailSettings := { settings with keepSmallFeatures := false }

/-- The stride of a small feature leaves as much of a segment as a general stride does: it has enough points
on it to make up for the turns on it, which are left in any case. -/
def Spared (general : Nat) (s : Segment) : Prop :=
  (s.length - 2) / general + turnsOn (featureStride s.length) s.points ≤
    (s.length - 2) / featureStride s.length + turnsOn general s.points

instance (general : Nat) (s : Segment) : Decidable (Spared general s) := inferInstanceAs (Decidable (_ ≤ _))

/-- Preserving small features makes a difference to a segment. -/
structure Concerned (settings : DetailSettings) (s : Segment) : Prop where
  long : wholeLength < s.length
  small : isSmallFeature s.points settings.smallFeatureSize = true

variable {settings : DetailSettings}

theorem simplifySegment_preserving {s : Segment} (general : Nat) (concerned : Concerned settings s) :
    simplifySegment (preserving settings) general s = ⟨thin (featureStride s.length) s.points, s.travel⟩ := by
  have preserved : isPreserved (preserving settings) s = true := by
    simp only [isPreserved, preserving, concerned.small, Bool.and_self]
  rw [simplifySegment_of_long general concerned.long, strideOf, if_pos preserved]

theorem simplifySegment_plain {s : Segment} (general : Nat) (long : wholeLength < s.length) :
    simplifySegment (plain settings) general s = ⟨thin general s.points, s.travel⟩ := by
  have unpreserved : ¬ isPreserved (plain settings) s = true := by simp [isPreserved, plain]
  rw [simplifySegment_of_long general long, strideOf, if_neg unpreserved]

theorem simplifySegment_of_not_concerned {s : Segment} (general : Nat) (not : ¬ Concerned settings s) :
    simplifySegment (preserving settings) general s = simplifySegment (plain settings) general s := by
  apply simplifySegment_congr
  intro long
  have large : isSmallFeature s.points settings.smallFeatureSize = false := by
    by_contra small
    exact not ⟨long, by simpa using small⟩
  simp [strideOf, isPreserved, preserving, plain, large]

theorem length_simplifySegment_le_iff (general : Nat) (s : Segment) :
    (simplifySegment (plain settings) general s).length ≤
        (simplifySegment (preserving settings) general s).length ↔
      (Concerned settings s → Spared general s) := by
  by_cases concerned : Concerned settings s
  · have two : 2 ≤ s.points.length := le_trans (by decide) (Nat.le_of_lt concerned.long)
    rw [simplifySegment_preserving general concerned, simplifySegment_plain general concerned.long]
    simp only [concerned, forall_const]
    exact length_thin_le_iff two general (featureStride s.length)
  · rw [simplifySegment_of_not_concerned general concerned]
    simp [concerned]

theorem overfull_preserving {budget : Nat} {ss : List Segment} :
    Overfull (preserving settings) budget ss ↔ Overfull settings budget ss := Iff.rfl

theorem overfull_plain {budget : Nat} {ss : List Segment} :
    Overfull (plain settings) budget ss ↔ Overfull settings budget ss := Iff.rfl

/-- Preserving small features keeps at least as many points of a segment as not preserving them does,
exactly when the segments are within the budget, or this one is short or no small feature, or its own stride
leaves as much of it as the general one. -/
theorem preserved_not_fewer_iff (settings : DetailSettings) (budget : Nat) {ss : List Segment} {i : Nat}
    {s : Segment} (place : ss[i]? = some s) :
    ∃ t u, (simplify (preserving settings) budget ss)[i]? = some t ∧
      (simplify (plain settings) budget ss)[i]? = some u ∧
      (u.length ≤ t.length ↔
        (Overfull settings budget ss → Concerned settings s →
          Spared (Segment.totalLength ss ⌈/⌉ budget) s)) := by
  by_cases exceeds : Overfull settings budget ss
  · rw [simplify_of_overfull (overfull_preserving.mpr exceeds), simplify_of_overfull (overfull_plain.mpr exceeds),
      List.getElem?_map, List.getElem?_map, place, ← generalStride_eq_ceilDiv exceeds]
    refine ⟨_, _, rfl, rfl, ?_⟩
    rw [length_simplifySegment_le_iff]
    simp only [exceeds, forall_const]
  · rw [simplify_of_not_overfull (mt overfull_preserving.mp exceeds),
      simplify_of_not_overfull (mt overfull_plain.mp exceeds)]
    refine ⟨s, s, place, place, ?_⟩
    simp [exceeds]

/-- A round boss milled in seven laps, with a way in and a way out. -/
def boss : Segment :=
  let lap : List Position :=
    [⟨0.5, 0, 0⟩, ⟨1, 0, 0⟩, ⟨1.5, 0.5, 0⟩, ⟨1.5, 1, 0⟩, ⟨1, 1.5, 0⟩, ⟨0.5, 1.5, 0⟩, ⟨0, 1, 0⟩, ⟨0, 0.5, 0⟩]
  ⟨[⟨0.5, -0.5, 0⟩, ⟨0.5, -0.25, 0⟩] ++ (List.replicate 7 lap).flatten ++ [⟨0.5, 0, 0⟩, ⟨-0.5, 0, 0⟩], false⟩

/-- Under a quarter of its points as the budget, the boss keeps more points when it is preserved. -/
theorem boss_spared :
    ∃ t u, (simplify (preserving {}) 15 [boss])[0]? = some t ∧ (simplify (plain {}) 15 [boss])[0]? = some u ∧
      u.length ≤ t.length := by
  have place : [boss][0]? = some boss := rfl
  obtain ⟨t, u, preserved, unpreserved, condition⟩ := preserved_not_fewer_iff {} 15 place
  have spared : Spared (Segment.totalLength [boss] ⌈/⌉ 15) boss := by decide +kernel
  exact ⟨t, u, preserved, unpreserved, condition.mpr fun _ _ => spared⟩

/-- One point above the budget, the boss keeps fewer points when it is preserved: every third one, and every
second one otherwise. -/
theorem boss_thinned_harder :
    (simplify (preserving {}) 59 [boss]).map Segment.length = [23] ∧
      (simplify (plain {}) 59 [boss]).map Segment.length = [31] := by
  decide +kernel

end Toolpath.Detail

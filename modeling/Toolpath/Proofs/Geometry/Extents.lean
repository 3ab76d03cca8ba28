import Mathlib
import Toolpath.Geometry.Bounds
import Toolpath.Proofs.Binary.Extended

/-!
# Extents of bounds

Valid bounds have finite faces, and still a length between two of them can be beyond the range. It is then infinite,
and never less than nothing or no number.
-/

namespace Toolpath

namespace Bounds

variable {b : Bounds} {ps : List Position}

/-- A length that is no less than nothing, and infinite where it is beyond the range. -/
structure Extent (x : Float32) : Prop where
  number : x.isNaN = false
  nonneg : 0 ≤ Single.extended x

theorem extent_sub {low high : Float32} (left : low.isFinite = true) (right : high.isFinite = true) (le : low ≤ high) :
    Extent (high - low) := by
  obtain ⟨number, compares⟩ := Single.extended_sub right left
  have order := (Single.le_iff left right).mp le
  refine ⟨number, ?_⟩
  rw [compares]
  exact Single.clipped_nonneg (by linarith)

theorem valid_of_ofList? (found : ofList? ps = some b) : b.isValid = true := by
  unfold ofList? at found
  dsimp only at found
  split at found
  · next valid =>
    cases found
    exact valid
  · cases found

theorem extent_width (valid : b.isValid = true) : Extent b.width := by
  rw [width, if_pos valid]
  simp only [isValid, Bool.and_eq_true, decide_eq_true_eq] at valid
  exact extent_sub (by tauto) (by tauto) (by tauto)

theorem extent_height (valid : b.isValid = true) : Extent b.height := by
  rw [height, if_pos valid]
  simp only [isValid, Bool.and_eq_true, decide_eq_true_eq] at valid
  exact extent_sub (by tauto) (by tauto) (by tauto)

theorem Extent.finite_or_infinity {x : Float32} (extent : Extent x) :
    x.isFinite = true ∧ 0 ≤ Single.value x ∨ x = Single.infinity := by
  by_cases finite : x.isFinite = true
  · have nonneg := extent.nonneg
    rw [Single.extended_eq finite] at nonneg
    exact Or.inl ⟨finite, nonneg⟩
  · exact Or.inr (Single.eq_infinity_of_nonneg extent.number finite extent.nonneg)

/-- Without a width or without a height. -/
def Flat (b : Bounds) : Prop := b.width == 0 ∨ b.height == 0

end Bounds

end Toolpath

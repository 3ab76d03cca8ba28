import Toolpath.Geometry.Position
import Toolpath.Proofs.Binary.Sums

/-!
# Edges without a direction

An edge has no direction when its length has no finite reciprocal. That is so between equal positions: on each axis
their difference is a zero of either sign, or not a number, and the squares of these leave a length of zero or none.
-/

namespace Toolpath

namespace Single

variable {a b : Float32}

/-- Equal numbers may be zeros of different signs; the square of their difference has no sign left to show it. -/
theorem level_square_of_beq (same : (a == b) = true) : Level ((b - a) * (b - a)) := by
  rcases eq_or_zeros_of_beq same with rfl | ⟨rfl | rfl, rfl | rfl⟩
  · exact level_mul_self (level_sub_self a)
  all_goals exact Or.inl (by decide)

theorem level_add (left : Level a) (right : Level b) : Level (a + b) := by
  rcases left with rfl | rfl <;> rcases right with rfl | rfl
  · exact Or.inl (by decide)
  all_goals exact Or.inr (by decide)

theorem not_isFinite_reciprocal_of_level (level : Level a) : (1 / a.sqrt).isFinite = false := by
  rcases level with rfl | rfl <;> decide

end Single

theorem isZero_direction_of_equal {p q : Position} (same : p.equal q = true) :
    (q.minus p).direction.isZero = true := by
  simp only [Position.equal, Bool.and_eq_true] at same
  obtain ⟨⟨x, y⟩, z⟩ := same
  have square : Single.Level ((q.minus p).dot (q.minus p)) :=
    Single.level_add (Single.level_add (Single.level_square_of_beq x) (Single.level_square_of_beq y))
      (Single.level_square_of_beq z)
  have none : (1 / (q.minus p).length).isFinite = false := Single.not_isFinite_reciprocal_of_level square
  simp only [Displacement.direction, none, Bool.false_and, Bool.false_eq_true, ↓reduceIte]
  decide

end Toolpath

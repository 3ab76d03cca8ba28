import Mathlib
import Toolpath.Proofs.Binary.Sums
import Toolpath.Proofs.Program.Words

/-!
# Settings that are the same

Settings are compared as numbers, so that two settings that are the same may still have zeros of different
signs. No arc can tell them apart, and therefore no program can.
-/

namespace Toolpath

namespace Single

theorem greater_epsilon_of_zero {a : Float32} (zero : a = 0 ∨ a = -0) : greater a epsilon = epsilon := by
  rcases zero with rfl | rfl
  · decide
  · decide

theorem not_pos_of_zero {a : Float32} (zero : a = 0 ∨ a = -0) : ¬0 < a := by
  rcases zero with rfl | rfl
  · decide
  · decide

theorem greater_epsilon_of_beq {a b : Float32} (same : (a == b) = true) :
    greater a epsilon = greater b epsilon := by
  rcases eq_or_zeros_of_beq same with rfl | ⟨left, right⟩
  · rfl
  · rw [greater_epsilon_of_zero left, greater_epsilon_of_zero right]

end Single

/-! ### Arcs -/

section Arcs

variable {s t : ArcSettings}

theorem Arc.segmentCount_of_same (same : s.same t = true) (radius sweep : Float32) :
    segmentCount s radius sweep = segmentCount t radius sweep := by
  simp only [ArcSettings.same, Bool.and_eq_true, beq_iff_eq] at same
  obtain ⟨⟨⟨⟨density, most⟩, fewest⟩, -⟩, -⟩ := same
  have raw : rawSegments s radius sweep = rawSegments t radius sweep := by
    rw [rawSegments, rawSegments, Single.greater_epsilon_of_beq density]
  simp only [segmentCount, raw, most, fewest]

theorem Arc.samples_of_same (same : s.same t = true) (arc : Arc) (c : Circle) (sweep : Float32) :
    arc.samples s c sweep = arc.samples t c sweep := by
  have count := segmentCount_of_same same c.radius sweep
  simp only [ArcSettings.same, Bool.and_eq_true, beq_iff_eq] at same
  obtain ⟨-, helical⟩ := same
  have sample : arc.sample s c = arc.sample t c := by
    funext startAngle sweep n i
    simp only [Arc.sample, helical]
  simp only [samples, count, sample]

theorem Arc.points_of_same (same : s.same t = true) (arc : Arc) : arc.points s = arc.points t := by
  have interior : arc.interior s = arc.interior t := by
    funext c sweep
    have samples := samples_of_same same arc c sweep
    simp only [ArcSettings.same, Bool.and_eq_true] at same
    obtain ⟨⟨-, spacing⟩, -⟩ := same
    rcases Single.eq_or_zeros_of_beq spacing with equal | ⟨left, right⟩
    · simp only [Arc.interior, samples, equal]
    · simp only [Arc.interior, samples, Single.not_pos_of_zero left, Single.not_pos_of_zero right]
      simp
  unfold points
  rw [interior]

end Arcs

/-! ### Programs -/

namespace Program

variable {s t : ArcSettings}

/-- A program meets the settings in its arcs only. -/
theorem Run.obey_of_points (agree : ∀ arc : Arc, arc.points s = arc.points t) : Run.obey s = Run.obey t := by
  have effects : State.motionEffect s = State.motionEffect t := by
    funext fresh state b m
    cases m with
    | arc turn => simp only [State.motionEffect, agree]
    | linear => rfl
    | rapid => rfl
  have steps : State.step s = State.step t := by
    funext fresh state b
    simp only [State.step, effects]
  funext run ws
  simp only [Run.obey, steps]

end Program

theorem Document.ofProgram_of_same {s t : ArcSettings} (same : s.same t = true) (text : String) :
    Document.ofProgram s text = Document.ofProgram t text := by
  rw [Program.ofProgram_eq, Program.ofProgram_eq, Program.Run.obey_of_points (Arc.points_of_same same)]

end Toolpath

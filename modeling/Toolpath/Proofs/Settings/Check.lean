import Toolpath.Settings.Check

/-!
# What a check establishes

Settings that pass their check have finite numbers and limits that leave room for a chord. Whatever a check finds
fault with is the value of a setting.
-/

namespace Toolpath

namespace ArcSettings

variable {s : ArcSettings} {e : SettingsError}

theorem isFinite_of_check (checked : s.check = .ok ()) :
    s.detailMultiplier.isFinite = true ∧ s.minSpacing.isFinite = true := by
  unfold check at checked
  split at checked
  · cases checked
  next positive =>
  split at checked
  · cases checked
  split at checked
  · cases checked
  split at checked
  · cases checked
  next notNegative =>
  simp only [isPositive, isNotNegative, Bool.not_eq_true, Bool.not_eq_false', Bool.and_eq_true] at positive notNegative
  exact ⟨positive.1, notNegative.1⟩

/-- Checked limits leave room for one chord at least. -/
theorem limits_of_check (checked : s.check = .ok ()) :
    1 ≤ s.minSegments.toNat ∧ s.minSegments.toNat ≤ s.maxSegments.toNat := by
  unfold check at checked
  split at checked
  · cases checked
  · split at checked
    · cases checked
    · next some =>
      split at checked
      · cases checked
      · next ordered =>
        rw [UInt32.lt_iff_toNat_lt, Nat.not_lt] at ordered
        have : s.minSegments.toNat ≠ 0 := fun zero => some (UInt32.toNat.inj zero)
        exact ⟨by omega, ordered⟩

theorem error_of_check (refused : s.check = .error e) : ∃ key reason, e = .invalidValue key reason := by
  unfold check at refused
  repeat' split at refused
  all_goals cases refused
  all_goals exact ⟨_, _, rfl⟩

end ArcSettings

namespace DetailSettings

variable {s : DetailSettings} {e : SettingsError}

theorem isFinite_of_check (checked : s.check = .ok ()) : s.smallFeatureSize.isFinite = true := by
  unfold check at checked
  split at checked
  · cases checked
  · next positive =>
    simp only [isPositive, Bool.not_eq_true, Bool.not_eq_false', Bool.and_eq_true] at positive
    exact positive.1

theorem error_of_check (refused : s.check = .error e) : ∃ key reason, e = .invalidValue key reason := by
  unfold check at refused
  split at refused <;> cases refused
  exact ⟨_, _, rfl⟩

end DetailSettings

namespace Config

variable {c : Config} {e : SettingsError}

theorem check_eq_ok_iff : c.check = .ok () ↔ c.arcs.check = .ok () ∧ c.detail.check = .ok () := by
  unfold check
  cases c.arcs.check <;> simp [bind, Except.bind]

/-- Only the value of a setting can be refused. -/
theorem error_of_check (refused : c.check = .error e) : ∃ key reason, e = .invalidValue key reason := by
  unfold check at refused
  cases arcs : c.arcs.check with
  | error fault =>
    rw [arcs] at refused
    cases refused
    exact ArcSettings.error_of_check arcs
  | ok _ =>
    rw [arcs] at refused
    exact DetailSettings.error_of_check refused

end Config

end Toolpath

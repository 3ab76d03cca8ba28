import Toolpath.Proofs.Settings.RoundTrip
import Toolpath.Proofs.Storage.Changes

/-!
# A refused configuration leaves the storage alone

The text of a file is ready before the storage is touched. So what is wrong with the settings, with the extension of
the path or with a number is found while everything is as it was, and the text is the same whatever was there.
-/

namespace Toolpath

theorem SettingsFormat.error_of_ofPath {path : String} {e : SettingsError} (refused : ofPath path = .error e) :
    e.isAboutStorage = false := by
  unfold ofPath at refused
  split at refused <;> cases refused
  rfl

theorem SettingsFormat.error_of_render {format : SettingsFormat} {c : Config} {e : SettingsError}
    (refused : format.render c = .error e) : e.isAboutStorage = false := by
  cases format with
  | json => cases refused
  | toml =>
    unfold render at refused
    dsimp only at refused
    cases written : Toml.renderConfig c with
    | ok text =>
      rw [written] at refused
      cases refused
    | error fault =>
      rw [written] at refused
      cases refused
      rfl

namespace Config

variable {c : Config} {s t : Storage} {path text : String} {e : SettingsError}

/-- What is found wrong before anything is written is never about the storage. -/
theorem error_of_textFor (refused : c.textFor path = .error e) : e.isAboutStorage = false := by
  unfold textFor at refused
  cases checked : c.check with
  | error fault =>
    rw [checked] at refused
    cases refused
    obtain ⟨_, _, rfl⟩ := error_of_check checked
    rfl
  | ok _ =>
    rw [checked] at refused
    cases known : SettingsFormat.ofPath path with
    | error fault =>
      rw [known] at refused
      cases refused
      exact SettingsFormat.error_of_ofPath known
    | ok format =>
      rw [known] at refused
      exact SettingsFormat.error_of_render refused

/-- The settings pass their check, and the extension names a format that has a number for the budget. -/
structure Presentable (c : Config) (path : String) : Prop where
  checked : c.check = .ok ()
  spelled : ∃ format, SettingsFormat.ofPath path = .ok format ∧
    (format = .toml → (c.detail.pointBudget.toNat : Int) ≤ Toml.greatestInteger)

theorem presentable_iff : c.Presentable path ↔ ∃ text, c.textFor path = .ok text := by
  constructor
  · rintro ⟨checked, format, known, budget⟩
    obtain ⟨text, rendered⟩ := format.render_isOk.mpr budget
    exact ⟨text, (textFor_eq known).mpr ⟨checked, rendered⟩⟩
  · rintro ⟨text, written⟩
    cases known : SettingsFormat.ofPath path with
    | error fault =>
      unfold textFor at written
      rw [known] at written
      cases checked : c.check <;> rw [checked] at written <;> cases written
    | ok format =>
      obtain ⟨checked, rendered⟩ := (textFor_eq known).mp written
      exact ⟨checked, format, known, format.render_isOk.mp ⟨text, rendered⟩⟩

theorem save_of_refused (refused : c.textFor path = .error e) (s : Storage) : c.save s path = (.error e, s) := by
  unfold save
  rw [refused]

/-- Once there is a text, only the storage can fail. -/
theorem error_of_written (written : c.textFor path = .ok text) (failed : (c.save s path).1 = .error e) :
    e.isAboutStorage = true := by
  unfold save at failed
  rw [written] at failed
  dsimp only at failed
  split at failed <;> cases failed
  rfl

theorem save_isOk_of_written (written : c.textFor path = .ok text) (placed : (s.save path text.toUTF8).2 = true) :
    (c.save s path).1 = .ok () := by
  unfold save
  rw [written]
  dsimp only
  split
  · rfl
  · next same =>
    rw [same] at placed
    cases placed

/-- A save that fails leaves everything as it was, unless it is the storage that fails; which of the two it is follows
from the settings, the extension and the budget. A save that is done puts the file in place and adds the parents that
were missing. What the file then holds does not depend on the storage, and what files held before cannot make a save
fail. -/
theorem refused_save_harmless (c : Config) (s : Storage) (path : String) :
    (∀ e t, c.save s path = (.error e, t) → e.isAboutStorage = false → t = s) ∧
      ((∃ e, (c.save s path).1 = .error e ∧ e.isAboutStorage = false) ↔ ¬ c.Presentable path) ∧
      ∀ t, c.save s path = (.ok (), t) → ∃ content target, Storage.Saved s t path content target ∧
        (∀ u v, c.save u path = (.ok (), v) → v.read? path = some content) ∧
        ∀ u, Storage.Alike s u → (c.save u path).1 = .ok () := by
  rw [presentable_iff]
  cases written : c.textFor path with
  | error fault =>
    have about := error_of_textFor written
    rw [save_of_refused written]
    refine ⟨?_, ⟨fun _ => nofun, fun _ => ⟨fault, rfl, about⟩⟩, nofun⟩
    intro e t same _
    exact (Prod.mk.inj same).2.symm
  | ok text =>
    have never : ∀ e, (c.save s path).1 = .error e → e.isAboutStorage ≠ false := by
      intro e failed about
      rw [error_of_written written failed] at about
      cases about
    refine ⟨?_, ⟨?_, fun none => absurd ⟨text, rfl⟩ none⟩, ?_⟩
    · intro e t failed about
      exact absurd about (never e (congrArg Prod.fst failed))
    · rintro ⟨e, failed, about⟩
      exact absurd about (never e failed)
    · intro t saved
      have placed := save_eq written saved
      obtain ⟨target, changes⟩ := Storage.exists_saved placed
      refine ⟨text.toUTF8, target, changes, ?_, ?_⟩
      · intro u v again
        exact Storage.read?_save (save_eq written again)
      · intro u alike
        refine save_isOk_of_written written ?_
        rw [← alike.save path text.toUTF8, placed]

/-- An older file is kept when the size is zero, and replaced by the standard settings as if it had not been there. -/
theorem older_file_kept_or_replaced : ∃ s : Storage, s.read? "profiles/fine.toml" = some "older".toUTF8 ∧
    (({ detail := { smallFeatureSize := 0 } } : Config).save s "profiles/fine.toml").2 = s ∧
    ∃ t content target, ({} : Config).save s "profiles/fine.toml" = (.ok (), t) ∧
      Storage.Saved s t "profiles/fine.toml" content target ∧
      ∀ v, ({} : Config).save {} "profiles/fine.toml" = (.ok (), v) → v.read? "profiles/fine.toml" = some content := by
  have placed : (Storage.save {} "profiles/fine.toml" "older".toUTF8).2 = true := by decide +kernel
  refine ⟨(Storage.save {} "profiles/fine.toml" "older".toUTF8).1, Storage.read?_save (Prod.ext rfl placed), ?_, ?_⟩
  · have failed : (({ detail := { smallFeatureSize := 0 } } : Config).save
        (Storage.save {} "profiles/fine.toml" "older".toUTF8).1 "profiles/fine.toml").1 =
          .error (.invalidValue "lod.small_feature_threshold" "must be > 0") := by decide +kernel
    exact (refused_save_harmless _ _ _).1 _ _ (Prod.ext failed rfl) rfl
  · have done : (({} : Config).save (Storage.save {} "profiles/fine.toml" "older".toUTF8).1 "profiles/fine.toml").1 =
        .ok () := by decide +kernel
    obtain ⟨content, target, saved, same, _⟩ := (refused_save_harmless {} _ _).2.2 _ (Prod.ext done rfl)
    exact ⟨_, content, target, Prod.ext done rfl, saved, same {}⟩

end Config

end Toolpath

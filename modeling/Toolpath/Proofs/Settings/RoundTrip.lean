import Toolpath.Proofs.Json.Settings
import Toolpath.Proofs.Settings.Check
import Toolpath.Proofs.Storage.Save
import Toolpath.Proofs.Toml.Settings
import Toolpath.Settings.File

/-!
# A saved configuration is loaded again

A configuration that passes its check has finite numbers, and both formats give such a configuration back. The
table format refuses a budget that is no integer of its own; apart from that only the storage can fail.
-/

namespace Toolpath

namespace Config

variable {c : Config}

theorem isFinite_of_check (checked : c.check = .ok ()) : c.IsFinite := by
  have both := check_eq_ok_iff.mp checked
  obtain ⟨multiplier, spacing⟩ := ArcSettings.isFinite_of_check both.1
  have size := DetailSettings.isFinite_of_check both.2
  intro s member e entry
  simp only [sections, List.mem_cons, List.not_mem_nil, or_false] at member
  rcases member with rfl | rfl
  · simp only [ArcSettings.entries, List.mem_cons, List.not_mem_nil, or_false] at entry
    rcases entry with rfl | rfl | rfl | rfl | rfl
    · exact multiplier
    · trivial
    · trivial
    · exact spacing
    · trivial
  · simp only [DetailSettings.entries, List.mem_cons, List.not_mem_nil, or_false] at entry
    rcases entry with rfl | rfl | rfl | rfl
    · trivial
    · trivial
    · trivial
    · exact size

end Config

namespace SettingsFormat

variable {c : Config} {text : String}

theorem mapError_eq {α ε δ : Type} {x : Except ε α} {f : ε → δ} {a : α} : x.mapError f = .ok a ↔ x = .ok a := by
  cases x with
  | error e => simp [Except.mapError]
  | ok b => simp [Except.mapError]

theorem render_isOk (format : SettingsFormat) : (∃ text, format.render c = .ok text) ↔
    (format = .toml → (c.detail.pointBudget.toNat : Int) ≤ Toml.greatestInteger) := by
  cases format with
  | json => exact ⟨fun _ => nofun, fun _ => ⟨_, rfl⟩⟩
  | toml =>
    rw [← Config.renderConfig_isOk]
    exact ⟨fun ⟨text, written⟩ _ => ⟨text, mapError_eq.mp written⟩,
      fun possible => (possible rfl).imp fun text written => mapError_eq.mpr written⟩

theorem parse_render {format : SettingsFormat} (finite : c.IsFinite) (written : format.render c = .ok text) :
    format.parse text = .ok c := by
  cases format with
  | json =>
    have same : (Json.encode c).prettyText = text := Except.ok.inj written
    have read := Config.parse_prettyText finite
    rw [same] at read
    change (Json.parse text).mapError _ = _
    rw [mapError_eq]
    exact read
  | toml =>
    have here : Toml.renderConfig c = .ok text := mapError_eq.mp written
    change (Toml.parseConfig text).mapError _ = _
    rw [mapError_eq]
    exact Config.parseConfig_eq finite here

end SettingsFormat

namespace Config

variable {c : Config} {s t : Storage} {path text : String} {format : SettingsFormat}

theorem textFor_eq (known : SettingsFormat.ofPath path = .ok format) :
    c.textFor path = .ok text ↔ c.check = .ok () ∧ format.render c = .ok text := by
  unfold textFor
  rw [known]
  cases c.check with
  | error e => simp [bind, Except.bind]
  | ok _ => simp [bind, Except.bind]

theorem save_eq (written : c.textFor path = .ok text) (saved : c.save s path = (.ok (), t)) :
    s.save path text.toUTF8 = (t, true) := by
  unfold save at saved
  rw [written] at saved
  dsimp only at saved
  split at saved
  · next same =>
    cases saved
    exact same
  · cases saved

/-- What is saved is loaded again, and saving fails for no other reason than a failed check, a budget that is
no integer of the format, and a place where no file can be put. -/
theorem save_load (c : Config) (s : Storage) (known : SettingsFormat.ofPath path = .ok format) :
    (∀ t, c.save s path = (.ok (), t) → load t path = .ok c) ∧
      ((c.save s path).1 = .ok () ↔ c.check = .ok () ∧
        (format = .toml → (c.detail.pointBudget.toNat : Int) ≤ Toml.greatestInteger) ∧
        (s.save path .empty).2 = true) := by
  constructor
  · intro t saved
    cases written : c.textFor path with
    | error e =>
      unfold save at saved
      rw [written] at saved
      cases saved
    | ok text =>
      obtain ⟨checked, rendered⟩ := (textFor_eq known).mp written
      have parsed := SettingsFormat.parse_render (isFinite_of_check checked) rendered
      unfold load
      rw [Storage.readText?_save (save_eq written saved), known]
      change (do
        let d ← format.parse text
        d.check
        return d) = _
      rw [parsed]
      change (do
        c.check
        return c) = _
      rw [checked]
      rfl
  · constructor
    · intro saved
      cases written : c.textFor path with
      | error e =>
        unfold save at saved
        rw [written] at saved
        cases saved
      | ok text =>
        obtain ⟨checked, rendered⟩ := (textFor_eq known).mp written
        refine ⟨checked, format.render_isOk.mp ⟨text, rendered⟩, ?_⟩
        rw [s.save_any_content path _ text.toUTF8]
        exact congrArg Prod.snd (save_eq written (t := (c.save s path).2) (Prod.ext saved rfl))
    · rintro ⟨checked, budget, place⟩
      obtain ⟨text, rendered⟩ := format.render_isOk.mpr budget
      rw [s.save_any_content path _ text.toUTF8] at place
      unfold save
      rw [(textFor_eq known).mpr ⟨checked, rendered⟩]
      dsimp only
      split
      · rfl
      · next same =>
        rw [same] at place
        cases place

theorem negative_zero_saved : SettingsFormat.ofPath "profiles/fine.toml" = .ok .toml ∧
    ∃ t, ({ arcs := { detailMultiplier := 0.1, minSpacing := -0.0 } } : Config).save {} "profiles/fine.toml" = (.ok (), t) ∧
      load t "profiles/fine.toml" = .ok { arcs := { detailMultiplier := 0.1, minSpacing := -0.0 } } := by
  have known : SettingsFormat.ofPath "profiles/fine.toml" = .ok .toml := by rfl
  have both := save_load { arcs := { detailMultiplier := 0.1, minSpacing := -0.0 } } {} known
  have saved := both.2.mpr ⟨by decide +kernel, by decide +kernel, by decide +kernel⟩
  exact ⟨known, _, Prod.ext saved rfl, both.1 _ (Prod.ext saved rfl)⟩

end Config

end Toolpath

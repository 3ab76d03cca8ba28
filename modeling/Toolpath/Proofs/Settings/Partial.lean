import Toolpath.Proofs.Json.Settings
import Toolpath.Proofs.Settings.Check
import Toolpath.Proofs.Storage.Save
import Toolpath.Proofs.Toml.Settings
import Toolpath.Settings.File

/-!
# Partial settings files

A file that gives some settings of a configuration is loaded as these settings over the defaults, and it is this
configuration that is checked: a value may be refused because of a default. The two formats do not differ in this.
-/

namespace Toolpath

namespace SettingsFormat

/-- The text is one of the format and spells the chosen settings of the configuration, none of its others, and
anything else under other names. -/
def Spells (format : SettingsFormat) (chosen : String → String → Bool) (c : Config) (text : String) : Prop :=
  match format with
  | .json => ∃ v, Json.read? text = some v ∧ c.GivenBy chosen v
  | .toml => ∃ v, Toml.read? text = some v ∧ c.GivenBy chosen v

def draftText (format : SettingsFormat) (d : Draft) : Except Fault String :=
  match format with
  | .json => .ok d.toJson.prettyText
  | .toml => Toml.renderFile d.loose d.sections

/-- The draft can be written in the format. A table file wants names without quotes and counts that are integers of
the format. -/
def Takes (format : SettingsFormat) (d : Draft) : Prop :=
  format = .toml → d.HasBareNames ∧ (∀ e ∈ d.loose, e.2.Fits) ∧ ∀ s ∈ d.sections, ∀ e ∈ s.2, e.2.Fits

variable {format : SettingsFormat} {chosen : String → String → Bool} {c : Config} {text : String}

theorem Spells.parse (spells : format.Spells chosen c text) : format.parse text = .ok (c.overDefaults chosen) := by
  cases format with
  | json =>
    obtain ⟨v, read, given⟩ := spells
    have decoded : (Json.parse text : Except Fault Config) = Config.read v := by
      unfold Json.parse
      rw [read]
      rfl
    change (Json.parse text).mapError _ = _
    rw [decoded, Config.read_given given]
    rfl
  | toml =>
    obtain ⟨v, read, given⟩ := spells
    have decoded : Toml.parseConfig text = Config.read v := by
      unfold Toml.parseConfig
      rw [read]
    change (Toml.parseConfig text).mapError _ = _
    rw [decoded, Config.read_given given]
    rfl

theorem exists_draftText {d : Draft} (takes : format.Takes d) (holds : d.Holds chosen c) :
    ∃ text, format.draftText d = .ok text ∧ format.Spells chosen c text := by
  cases format with
  | json => exact ⟨_, rfl, d.toJson, Json.read?_pretty d.spelled_toJson, holds.givenBy_toJson⟩
  | toml =>
    obtain ⟨bare, fits⟩ := takes rfl
    obtain ⟨text, written⟩ := renderFile_isOk.mpr fits
    exact ⟨text, written, holds.givenBy_renderFile bare written⟩

end SettingsFormat

namespace Config

/-- The file spells the chosen settings of the configuration in the format of its extension. -/
def IsPartlyIn (chosen : String → String → Bool) (c : Config) (s : Storage) (path : String) : Prop :=
  ∃ format text, SettingsFormat.ofPath path = .ok format ∧ s.readText? path = some text ∧ format.Spells chosen c text

variable {chosen : String → String → Bool} {c : Config} {s : Storage} {path : String}

theorem load_of_isPartlyIn (partly : c.IsPartlyIn chosen s path) :
    load s path = (c.overDefaults chosen).check.map fun _ => c.overDefaults chosen := by
  obtain ⟨format, text, known, stored, spells⟩ := partly
  unfold load
  rw [stored, known]
  change (do
    let d ← format.parse text
    d.check
    return d) = _
  rw [spells.parse]
  change (do
    (c.overDefaults chosen).check
    return c.overDefaults chosen) = _
  cases (c.overDefaults chosen).check with
  | error e => rfl
  | ok _ => rfl

/-- A file that spells the chosen settings of a configuration is loaded as these settings over the defaults, and
refused for the value of a setting if this configuration does not pass its check. Two such files are loaded alike
whatever their formats. In each format that takes a draft of the chosen settings, the draft has a text that spells
them. -/
theorem load_partial (c : Config) (chosen : String → String → Bool) :
    (∀ s path, c.IsPartlyIn chosen s path →
      ((c.overDefaults chosen).check = .ok () → load s path = .ok (c.overDefaults chosen)) ∧
        ∀ e, (c.overDefaults chosen).check = .error e →
          load s path = .error e ∧ ∃ key reason, e = .invalidValue key reason) ∧
      (∀ s t path other, c.IsPartlyIn chosen s path → c.IsPartlyIn chosen t other → load s path = load t other) ∧
      ∀ d : Draft, d.Holds chosen c → ∀ format : SettingsFormat, format.Takes d →
        ∃ text, format.draftText d = .ok text ∧ ∀ s path, SettingsFormat.ofPath path = .ok format →
          s.readText? path = some text → c.IsPartlyIn chosen s path := by
  refine ⟨fun s path partly => ?_, fun s t path other one another => ?_, fun d holds format takes => ?_⟩
  · rw [load_of_isPartlyIn partly]
    refine ⟨fun checked => ?_, fun e refused => ⟨?_, error_of_check refused⟩⟩
    · rw [checked]
      rfl
    · rw [refused]
      rfl
  · rw [load_of_isPartlyIn one, load_of_isPartlyIn another]
  · obtain ⟨text, written, spells⟩ := SettingsFormat.exists_draftText takes holds
    exact ⟨text, written, fun s path known stored => ⟨format, text, known, stored, spells⟩⟩

/-- The least count of arc segments, and no other setting. -/
def onlyMinimum (name key : String) : Bool := name == "parser" && key == "min_arc_segments"

/-- A least count of arc segments with foreign names around it. -/
def loneMinimum (least : UInt32) : Draft where
  loose := [("version", .count 2)]
  sections :=
    [("theme", [("dark", .flag true)]), ("parser", [("colour", .flag false), ("min_arc_segments", .count least.toNat)])]
  distinct := by simp
  foreign := by decide
  distinct_section := by simp
  finite_loose := by simp [Setting.IsFinite]
  finite_section := by simp only [List.forall_mem_cons, Setting.IsFinite]; simp

theorem holds_loneMinimum (least : UInt32) :
    (loneMinimum least).Holds onlyMinimum { arcs := { minSegments := least } } := by
  simp only [Draft.Holds, sections, ArcSettings.entries, DetailSettings.entries, List.forall_mem_cons]
  exact ⟨⟨rfl, rfl, rfl, rfl, rfl, List.forall_mem_nil _⟩, ⟨rfl, rfl, rfl, rfl, List.forall_mem_nil _⟩,
    List.forall_mem_nil _⟩

/-- A least count above the standard greatest count is refused in a table file. A smaller one is taken from an object,
with the defaults for the rest. -/
theorem lone_minimum_loaded :
    (∃ text t, SettingsFormat.toml.draftText (loneMinimum 400) = .ok text ∧
      Storage.save {} "view.toml" text.toUTF8 = (t, true) ∧
      load t "view.toml" = .error (.invalidValue "parser.max_arc_segments" "must be >= min_arc_segments (400)")) ∧
    ∃ text t, SettingsFormat.json.draftText (loneMinimum 40) = .ok text ∧
      Storage.save {} "view.json" text.toUTF8 = (t, true) ∧
      load t "view.json" = .ok { arcs := { minSegments := 40 } } := by
  constructor
  · have whole := load_partial { arcs := { minSegments := 400 } } onlyMinimum
    have takes : SettingsFormat.toml.Takes (loneMinimum 400) := by
      refine fun _ => ⟨⟨?_, ?_⟩, ?_, ?_⟩
      · simp only [loneMinimum, List.forall_mem_cons]
        decide +kernel
      · simp only [loneMinimum, List.forall_mem_cons]
        decide +kernel
      · simp [loneMinimum, Setting.Fits, Toml.greatestInteger]
      · simp only [loneMinimum, List.forall_mem_cons, Setting.Fits]
        simp [Toml.greatestInteger]
    obtain ⟨text, written, spelled⟩ := whole.2.2 _ (holds_loneMinimum 400) .toml takes
    have placed : (Storage.save {} "view.toml" text.toUTF8).2 = true := by
      rw [Storage.save_any_content _ _ _ .empty]
      decide +kernel
    have partly := spelled _ "view.toml" rfl (Storage.readText?_save (Prod.ext rfl placed))
    exact ⟨text, _, written, Prod.ext rfl placed, ((whole.1 _ _ partly).2 _ (by decide +kernel)).1⟩
  · have whole := load_partial { arcs := { minSegments := 40 } } onlyMinimum
    have takes : SettingsFormat.json.Takes (loneMinimum 40) := fun other => by cases other
    obtain ⟨text, written, spelled⟩ := whole.2.2 _ (holds_loneMinimum 40) .json takes
    have placed : (Storage.save {} "view.json" text.toUTF8).2 = true := by
      rw [Storage.save_any_content _ _ _ .empty]
      decide +kernel
    have partly := spelled _ "view.json" rfl (Storage.readText?_save (Prod.ext rfl placed))
    exact ⟨text, _, written, Prod.ext rfl placed, (whole.1 _ _ partly).1 (by decide +kernel)⟩

end Config

end Toolpath

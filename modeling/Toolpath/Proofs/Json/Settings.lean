import Toolpath.Exchange.Settings
import Toolpath.Proofs.Json.Numbers
import Toolpath.Proofs.Json.ReadBack
import Toolpath.Proofs.Settings.Draft

/-!
# Settings read back from JSON

The object of a configuration is spelled out in the text, and each of its members is read as the setting that
it was written for.
-/

namespace Toolpath

open Json Decimal

namespace Json

variable {names : List String} {members : List (String × Value)}

theorem textKeys?_record (members : List (String × Value)) :
    Fields.textKeys? (members.map fun (key, v) => (some key, v)) = some members := by
  unfold Fields.textKeys?
  induction members with
  | nil => rfl
  | cons m members ih =>
    rw [List.map_cons, List.mapM_cons, ih]
    rfl

theorem distinct_of_nodup (nodup : (members.map Prod.fst).Nodup) : Fields.distinct members = true := by
  induction members with
  | nil => rfl
  | cons m members ih =>
    obtain ⟨name, v⟩ := m
    rw [List.map_cons, List.nodup_cons] at nodup
    unfold Fields.distinct
    rw [ih nodup.2, Bool.and_true, Bool.not_eq_true', List.any_eq_false]
    intro other member same
    exact nodup.1 (List.mem_map.mpr ⟨other, member, beq_iff_eq.mp same⟩)

theorem fields_record (distinct : ((known names members).map Prod.fst).Nodup) :
    Spelling.fields names (Value.record members) = .ok (known names members) := by
  change (Fields.ofValue names (.object _)).map Fields.given = _
  unfold Fields.ofValue
  dsimp only
  rw [textKeys?_record]
  dsimp only
  rw [← known, distinct_of_nodup distinct]
  rfl

instance : Keyed Value where
  IsRecord members v := v = .record members
  fields_eq isRecord distinct := isRecord ▸ fields_record distinct

theorem spelledMembers_record (spelled : ∀ m ∈ members, m.2.Spelled) :
    SpelledMembers (members.map fun (key, v) => (some key, v)) := by
  induction members with
  | nil => trivial
  | cons m members ih =>
    exact ⟨rfl, spelled m List.mem_cons_self, ih fun other member => spelled other (List.mem_cons_of_mem m member)⟩

end Json

namespace Setting

variable {setting : Setting}

theorem spelled_toJson (finite : setting.IsFinite) : setting.toJson.Spelled := by
  cases setting with
  | number x =>
    change (ofSingle x).Spelled
    unfold ofSingle
    rw [show x.isFinite = true from finite]
    exact (proper_magnitude rfl _ _ _).1
  | count n => exact Numeral.proper_ofNat n
  | flag b => trivial

/-- What is written for a setting is read as the setting. -/
theorem spelledBy_toJson (finite : setting.IsFinite) : setting.SpelledBy setting.toJson := by
  cases setting with
  | number x =>
    change decode (ofSingle x) = .ok x
    unfold ofSingle
    rw [show x.isFinite = true from finite, if_pos rfl]
    unfold decode instCodecFloat32
    dsimp only
    rw [toSingle?_single finite]
  | count n =>
    intro limit le
    have value : ofDigits (Numeral.ofNat n).whole = n := ofDigits_digitsOf n
    change (if ofDigits (Numeral.ofNat n).whole ≤ limit then Except.ok (ofDigits (Numeral.ofNat n).whole)
      else .error Fault.outOfRange) = _
    rw [value, if_pos le]
  | flag b => rfl

end Setting

section Sections

variable {entries : List (String × Setting)} (finite : ∀ e ∈ entries, e.2.IsFinite)
include finite

theorem spelled_entriesToJson : (entriesToJson entries).Spelled := by
  refine spelledMembers_record fun m member => ?_
  obtain ⟨e, here, rfl⟩ := List.mem_map.mp member
  exact Setting.spelled_toJson (finite e here)

theorem isSection_entriesToJson : Draft.IsSection entries (entriesToJson entries) :=
  ⟨_, rfl, ByName.map fun e member => Setting.spelledBy_toJson (finite e member)⟩

end Sections

namespace Draft

/-- The object of a draft. -/
def toJson (d : Draft) : Value :=
  .record (d.loose.map (fun (name, setting) => (name, setting.toJson))
    ++ d.sections.map fun (name, entries) => (name, entriesToJson entries))

theorem spelled_toJson (d : Draft) : d.toJson.Spelled := by
  refine spelledMembers_record fun m member => ?_
  rcases List.mem_append.mp member with loose | inSections
  · obtain ⟨e, here, rfl⟩ := List.mem_map.mp loose
    exact Setting.spelled_toJson (d.finite_loose e here)
  · obtain ⟨s, here, rfl⟩ := List.mem_map.mp inSections
    exact spelled_entriesToJson (d.finite_section s here)

theorem Holds.givenBy_toJson {d : Draft} {chosen : String → String → Bool} {c : Config} (holds : d.Holds chosen c) :
    c.GivenBy chosen d.toJson := by
  refine holds.givenBy rfl ?_ (ByName.map fun s member => isSection_entriesToJson (d.finite_section s member))
  rw [List.map_map]
  rfl

end Draft

/-- A configuration comes back from its JSON text. -/
theorem Config.parse_prettyText {c : Config} (finite : c.IsFinite) :
    (Json.parse (encode c).prettyText : Except Fault Config) = .ok c := by
  have given := (Draft.holds_ofConfig finite).givenBy_toJson
  unfold Json.parse
  rw [read?_pretty (v := encode c) (Draft.ofConfig c finite).spelled_toJson]
  have whole := read_given given
  rwa [overDefaults_all] at whole

end Toolpath

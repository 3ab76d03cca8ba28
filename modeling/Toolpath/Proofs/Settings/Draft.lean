import Toolpath.Proofs.Settings.Form

/-!
# Partial configurations

A settings file may leave out sections and settings, give them in any order, and hold whatever else under names
that are not known. Such a file is read as the settings that it gives over the defaults. A draft lists what a file
is to say before it is written in some format.
-/

namespace Toolpath

/-! ### Records with known names -/

section Known

variable {α : Type}

/-- The members that have one of these names. -/
def known (names : List String) (members : List (String × α)) : List (String × α) :=
  members.filter fun m => names.contains m.1

theorem lookup_known {names : List String} {name : String} (member : name ∈ names) (members : List (String × α)) :
    (known names members).lookup name = members.lookup name := by
  unfold known
  induction members with
  | nil => rfl
  | cons m members ih =>
    obtain ⟨key, a⟩ := m
    cases here : names.contains key with
    | true => rw [List.filter_cons_of_pos (by exact here), List.lookup_cons, List.lookup_cons, ih]
    | false =>
      have differs : name ≠ key := by
        rintro rfl
        rw [List.contains_iff_mem.mpr member] at here
        cases here
      rw [List.filter_cons_of_neg (by simpa using here), List.lookup_cons, beq_eq_false_iff_ne.mpr differs, ih]

theorem nodup_known {members : List (String × α)} (distinct : (members.map Prod.fst).Nodup) (names : List String) :
    ((known names members).map Prod.fst).Nodup :=
  distinct.sublist (List.filter_sublist.map Prod.fst)

end Known

/-- A format with records of named members. A reader takes the members with the names that it knows, and these
names have to differ. -/
class Keyed (V : Type) [Spelling V] where
  IsRecord : List (String × V) → V → Prop
  fields_eq {names : List String} {members : List (String × V)} {v : V} : IsRecord members v →
    ((known names members).map Prod.fst).Nodup → Spelling.fields names v = .ok (known names members)

section Read

variable {V : Type} [Spelling V] [Keyed V] {chosen : String → Bool} {v : V}

/-- The value is a record that gives the chosen entries, each of them once, and none of the others. -/
def RecordOf (chosen : String → Bool) (entries : List (String × Setting)) (v : V) : Prop :=
  ∃ members, Keyed.IsRecord members v ∧ ((known (entries.map Prod.fst) members).map Prod.fst).Nodup ∧
    Gives chosen members entries

/-- The value is a record of sections, each of them there at most once, that give the chosen settings of the
configuration and none of its others. -/
def Config.GivenBy (chosen : String → String → Bool) (c : Config) (v : V) : Prop :=
  ∃ members, Keyed.IsRecord members v ∧ ((known names members).map Prod.fst).Nodup ∧
    ∀ s ∈ c.sections,
      match members.lookup s.1 with
      | some part => RecordOf (chosen s.1) s.2 part
      | none => ∀ e ∈ s.2, chosen s.1 e.1 = false

theorem RecordOf.fields {entries : List (String × Setting)} (record : RecordOf chosen entries v) :
    ∃ given, Spelling.fields (entries.map Prod.fst) v = .ok given ∧ Gives chosen given entries := by
  obtain ⟨members, isRecord, distinct, gives⟩ := record
  refine ⟨_, Keyed.fields_eq isRecord distinct, fun e member => ?_⟩
  rw [lookup_known (List.mem_map_of_mem member)]
  exact gives e member

theorem ArcSettings.read_record {s : ArcSettings} (record : RecordOf chosen s.entries v) :
    read v = .ok (s.overDefaults chosen) := by
  obtain ⟨given, fields, gives⟩ := record.fields
  exact read_eq fields gives

theorem DetailSettings.read_record {s : DetailSettings} (record : RecordOf chosen s.entries v) :
    read v = .ok (s.overDefaults chosen) := by
  obtain ⟨given, fields, gives⟩ := record.fields
  exact read_eq fields gives

/-- A partial configuration is read as the settings that it gives over the defaults. -/
theorem Config.read_given {c : Config} {chosen : String → String → Bool} (given : c.GivenBy chosen v) :
    read v = .ok (c.overDefaults chosen) := by
  obtain ⟨members, isRecord, distinct, sections⟩ := given
  have arcs : fieldOr (known names members) "parser" {} ArcSettings.read
      = .ok (c.arcs.overDefaults (chosen "parser")) := by
    have here := sections ("parser", c.arcs.entries) List.mem_cons_self
    refine fieldOr_eq (fun w found => ?_) fun absent => ?_
    · rw [lookup_known (by decide)] at found
      rw [found] at here
      exact ArcSettings.read_record here
    · rw [lookup_known (by decide)] at absent
      rw [absent] at here
      exact (ArcSettings.overDefaults_none here).symm
  have detail : fieldOr (known names members) "lod" {} DetailSettings.read
      = .ok (c.detail.overDefaults (chosen "lod")) := by
    have here := sections ("lod", c.detail.entries) (List.mem_cons_of_mem _ List.mem_cons_self)
    refine fieldOr_eq (fun w found => ?_) fun absent => ?_
    · rw [lookup_known (by decide)] at found
      rw [found] at here
      exact DetailSettings.read_record here
    · rw [lookup_known (by decide)] at absent
      rw [absent] at here
      exact (DetailSettings.overDefaults_none here).symm
  unfold read
  rw [Keyed.fields_eq isRecord distinct]
  dsimp only [bind, Except.bind]
  rw [arcs]
  dsimp only
  rw [detail]
  rfl

end Read

/-! ### Drafts -/

/-- What a settings file is to say: entries beside the sections, and sections of entries. Names differ in their
place, and the names of the sections of a configuration are those of sections. -/
structure Draft where
  loose : List (String × Setting)
  sections : List (String × List (String × Setting))
  distinct : (loose.map Prod.fst ++ sections.map Prod.fst).Nodup
  foreign : ∀ e ∈ loose, e.1 ∉ Config.names
  distinct_section : ∀ s ∈ sections, (s.2.map Prod.fst).Nodup
  finite_loose : ∀ e ∈ loose, e.2.IsFinite
  finite_section : ∀ s ∈ sections, ∀ e ∈ s.2, e.2.IsFinite

namespace Draft

variable {V : Type} [Spelling V] [Keyed V] {v : V} {d : Draft} {c : Config} {chosen : String → String → Bool}

/-- Of the settings of the configuration, the draft gives exactly the chosen ones. -/
def Holds (d : Draft) (chosen : String → String → Bool) (c : Config) : Prop :=
  ∀ s ∈ c.sections, ∀ e ∈ s.2,
    ((d.sections.lookup s.1).getD []).lookup e.1 = if chosen s.1 e.1 then some e.2 else none

/-- The draft that gives a whole configuration. -/
def ofConfig (c : Config) (finite : c.IsFinite) : Draft where
  loose := []
  sections := c.sections
  distinct := Config.nodup_names
  foreign := List.forall_mem_nil _
  distinct_section := c.nodup_section
  finite_loose := List.forall_mem_nil _
  finite_section := finite

theorem holds_ofConfig (finite : c.IsFinite) : (ofConfig c finite).Holds (fun _ _ => true) c := by
  intro s member e entry
  have part : c.sections.lookup s.1 = some s.2 :=
    lookup_of_mem (c.map_sections ▸ Config.nodup_names) member
  change ((c.sections.lookup s.1).getD []).lookup e.1 = some e.2
  rw [part]
  exact lookup_of_mem (c.nodup_section s member) entry

/-- The entries of a section stand in its record. -/
def IsSection (entries : List (String × Setting)) (v : V) : Prop :=
  ∃ members, Keyed.IsRecord members v ∧ ByName (fun setting v => setting.SpelledBy v) entries members

theorem IsSection.recordOf {chosen : String → Bool} {inner entries : List (String × Setting)}
    (isSection : IsSection inner v) (distinct : (inner.map Prod.fst).Nodup)
    (gives : ∀ e ∈ entries, inner.lookup e.1 = if chosen e.1 then some e.2 else none) : RecordOf chosen entries v := by
  obtain ⟨members, isRecord, spelled⟩ := isSection
  refine ⟨members, isRecord, nodup_known (spelled.names ▸ distinct) _, fun e entry => ?_⟩
  rw [← gives e entry]
  exact spelled.lookup e.1

theorem nodup_of_lookup {name : String} {inner : List (String × Setting)}
    (found : d.sections.lookup name = some inner) : (inner.map Prod.fst).Nodup := by
  obtain ⟨_, _, split, _⟩ := List.lookup_eq_some_iff.mp found
  exact d.distinct_section (name, inner) (split ▸ by simp)

/-- A draft that is written out entry by entry gives what it holds of a configuration. -/
theorem Holds.givenBy (holds : d.Holds chosen c) {loose sections : List (String × V)}
    (isRecord : Keyed.IsRecord (loose ++ sections) v) (looseNames : d.loose.map Prod.fst = loose.map Prod.fst)
    (written : ByName IsSection d.sections sections) : c.GivenBy chosen v := by
  refine ⟨loose ++ sections, isRecord, nodup_known ?_ _, fun s member => ?_⟩
  · rw [List.map_append, ← looseNames, ← written.names]
    exact d.distinct
  have apart : loose.lookup s.1 = none := by
    rw [List.lookup_eq_none_iff]
    intro m here
    rw [bne_iff_ne]
    intro same
    obtain ⟨e, loosely, name⟩ := List.mem_map.mp (looseNames ▸ List.mem_map_of_mem (f := Prod.fst) here)
    refine d.foreign e loosely ?_
    rw [name, ← same, ← c.map_sections]
    exact List.mem_map_of_mem member
  have gives := holds s member
  have related := written.lookup s.1
  rw [List.lookup_append, apart, Option.none_or]
  cases found : d.sections.lookup s.1 with
  | none =>
    rw [found] at related gives
    cases absent : sections.lookup s.1 with
    | some part => rw [absent] at related; cases related
    | none =>
      intro e entry
      have nothing := gives e entry
      cases wanted : chosen s.1 e.1 with
      | false => rfl
      | true => rw [wanted] at nothing; cases nothing
  | some inner =>
    rw [found] at related gives
    cases here : sections.lookup s.1 with
    | none => rw [here] at related; cases related
    | some part =>
      rw [here] at related
      cases related with
      | some isSection => exact isSection.recordOf (nodup_of_lookup found) gives

end Draft

end Toolpath

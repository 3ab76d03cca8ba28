import Toolpath.Proofs.Settings.Draft
import Toolpath.Proofs.Toml.Numbers
import Toolpath.Proofs.Toml.ReadBack

/-!
# Settings read back from a table file

A configuration can be written if its counts are integers of the format. Its tables are then read as the
sections that they were written for.
-/

namespace Toolpath

open Toml Decimal

namespace Setting

/-- The setting can be written: a count is not beyond the greatest integer of the format. -/
def Fits : Setting → Prop
  | .count n => (n : Int) ≤ greatestInteger
  | _ => True

variable {setting : Setting} {s : Scalar}

theorem ofSetting_isOk : (∃ s, ofSetting setting = .ok s) ↔ setting.Fits := by
  cases setting with
  | number x => exact ⟨fun _ => trivial, fun _ => ⟨_, rfl⟩⟩
  | flag b => exact ⟨fun _ => trivial, fun _ => ⟨_, rfl⟩⟩
  | count n =>
    unfold ofSetting Fits
    dsimp only
    constructor
    · rintro ⟨s, written⟩
      split at written
      · assumption
      · cases written
    · intro small
      exact ⟨_, if_pos small⟩

theorem spelled_ofSetting (finite : setting.IsFinite) (written : ofSetting setting = .ok s) : s.Spelled := by
  cases setting with
  | number x =>
    obtain ⟨n, same, proper, notInteger, decimal, _⟩ := toSingle?_ofSingle finite
    cases written
    rw [same]
    exact ⟨proper, notInteger, decimal⟩
  | flag b =>
    cases written
    trivial
  | count n =>
    unfold ofSetting at written
    dsimp only at written
    split at written
    · next small =>
      cases written
      exact ⟨by unfold leastInteger; omega, small⟩
    · cases written

/-- What is written for a setting is read as the setting. -/
theorem spelledBy_ofSetting (finite : setting.IsFinite) (written : ofSetting setting = .ok s) :
    setting.SpelledBy (Value.scalar s) := by
  cases setting with
  | number x =>
    obtain ⟨n, same, _, _, _, back⟩ := toSingle?_ofSingle finite
    cases written
    change decodeNumber (.scalar (.ofSingle x)) = .ok x
    rw [same, decodeNumber, back]
  | flag b =>
    cases written
    rfl
  | count n =>
    unfold ofSetting at written
    dsimp only at written
    split at written
    · cases written
      intro limit le
      change (if _ then Except.ok (n : Int).toNat else _) = _
      rw [if_pos, Int.toNat_natCast]
      simpa using le
    · cases written

end Setting

/-! ### Lists written one by one -/

theorem mapM_ok_iff {α β : Type} {f : α → Except Fault β} {xs : List α} {ys : List β} :
    xs.mapM f = .ok ys ↔ List.Forall₂ (fun x y => f x = .ok y) xs ys := by
  induction xs generalizing ys with
  | nil => cases ys <;> simp [pure, Except.pure]
  | cons x xs ih =>
    rw [List.mapM_cons]
    cases first : f x with
    | error fault => cases ys <;> simp [bind, Except.bind, first]
    | ok y =>
      cases later : xs.mapM f with
      | error fault => cases ys <;> simp [bind, Except.bind, first, ← ih, later]
      | ok rest => cases ys <;> simp [bind, Except.bind, pure, Except.pure, first, ← ih, later]

theorem mapM_named_iff {α β : Type} {f : α → Except Fault β} {as : List (String × α)} {bs : List (String × β)} :
    (as.mapM fun (name, a) => (f a).map fun b => (name, b)) = .ok bs ↔ ByName (fun a b => f a = .ok b) as bs := by
  have step : ∀ (a : String × α) (b : String × β),
      ((f a.2).map fun y => (a.1, y)) = .ok b ↔ a.1 = b.1 ∧ f a.2 = .ok b.2 := by
    rintro ⟨name, x⟩ ⟨key, y⟩
    cases f x with
    | error fault => simp [Except.map]
    | ok z => simp [Except.map]
  rw [mapM_ok_iff]
  exact ⟨fun pairs => pairs.imp fun a b => (step a b).mp, fun pairs => List.Forall₂.imp (fun a b => (step a b).mpr) pairs⟩

theorem mapM_named_isOk {α β : Type} {f : α → Except Fault β} {as : List (String × α)} :
    (∃ bs, (as.mapM fun (name, a) => (f a).map fun b => (name, b)) = .ok bs) ↔ ∀ a ∈ as, ∃ b, f a.2 = .ok b := by
  constructor
  · rintro ⟨bs, written⟩ a member
    obtain ⟨b, _, _, same⟩ := (mapM_named_iff.mp written).exists_right member
    exact ⟨b.2, same⟩
  · intro possible
    suffices ∃ bs, ByName (fun a b => f a = .ok b) as bs from this.imp fun bs => mapM_named_iff.mpr
    induction as with
    | nil => exact ⟨[], .nil⟩
    | cons a as ih =>
      obtain ⟨b, here⟩ := possible a List.mem_cons_self
      obtain ⟨bs, later⟩ := ih fun d member => possible d (List.mem_cons_of_mem a member)
      exact ⟨(a.1, b) :: bs, .cons ⟨rfl, here⟩ later⟩

/-! ### Sections -/

variable {entries : List (String × Setting)} {scalars : List (String × Scalar)}

theorem ofEntries_iff :
    ofEntries entries = .ok scalars ↔ ByName (fun setting s => ofSetting setting = .ok s) entries scalars :=
  mapM_named_iff

theorem ofEntries_isOk : (∃ scalars, ofEntries entries = .ok scalars) ↔ ∀ e ∈ entries, e.2.Fits :=
  mapM_named_isOk.trans (forall₂_congr fun _ _ => Setting.ofSetting_isOk)

section Written

variable (written : ofEntries entries = .ok scalars) (finite : ∀ e ∈ entries, e.2.IsFinite)
include written finite

theorem isPlainEntry (bare : ∀ e ∈ entries, IsBareName e.1) : ∀ t ∈ scalars, IsPlainEntry t := by
  intro t member
  obtain ⟨e, here, name, same⟩ := (ofEntries_iff.mp written).exists_left member
  exact ⟨name ▸ bare e here, Setting.spelled_ofSetting (finite e here) same⟩

theorem byName_memberOf : ByName (fun setting v => setting.SpelledBy v) entries (scalars.map memberOf) :=
  (ofEntries_iff.mp written).map_right fun e member _ same => Setting.spelledBy_ofSetting (finite e member) same

end Written

instance : Keyed Value where
  IsRecord members v := ∃ origin, v = .table origin members
  fields_eq isRecord _ := by
    obtain ⟨origin, rfl⟩ := isRecord
    rfl

/-! ### Files -/

/-- The text of entries beside sections, and of sections. -/
def Toml.renderFile (loose : List (String × Setting)) (sections : List (String × List (String × Setting))) :
    Except Fault String := do
  let top ← ofEntries loose
  let tables ← sections.mapM fun (name, entries) => (ofEntries entries).map fun scalars => (name, scalars)
  return String.ofList (top.flatMap renderEntry ++ renderSections tables)

theorem renderFile_eq {loose : List (String × Setting)} {sections : List (String × List (String × Setting))}
    {text : String} : renderFile loose sections = .ok text ↔ ∃ top tables, ofEntries loose = .ok top ∧
      ByName (fun entries scalars => ofEntries entries = .ok scalars) sections tables ∧
      text = String.ofList (top.flatMap renderEntry ++ renderSections tables) := by
  simp only [← mapM_named_iff]
  unfold renderFile
  cases ofEntries loose with
  | error fault => simp [bind, Except.bind]
  | ok top =>
    cases sections.mapM fun (name, entries) => (ofEntries entries).map fun scalars => (name, scalars) with
    | error fault => simp [bind, Except.bind]
    | ok tables => simp [bind, Except.bind, pure, Except.pure, eq_comm]

theorem renderFile_isOk {loose : List (String × Setting)} {sections : List (String × List (String × Setting))} :
    (∃ text, renderFile loose sections = .ok text) ↔
      (∀ e ∈ loose, e.2.Fits) ∧ ∀ s ∈ sections, ∀ e ∈ s.2, e.2.Fits := by
  have tables : (∃ tables, ByName (fun entries scalars => ofEntries entries = .ok scalars) sections tables) ↔
      ∀ s ∈ sections, ∀ e ∈ s.2, e.2.Fits := by
    simp only [← mapM_named_iff, mapM_named_isOk, ofEntries_isOk]
  rw [← ofEntries_isOk, ← tables]
  constructor
  · rintro ⟨text, written⟩
    obtain ⟨top, tables, first, later, _⟩ := renderFile_eq.mp written
    exact ⟨⟨top, first⟩, tables, later⟩
  · rintro ⟨⟨top, first⟩, tables, later⟩
    exact ⟨_, renderFile_eq.mpr ⟨top, tables, first, later, rfl⟩⟩

namespace Draft

/-- The names of the draft are written without quotes. -/
structure HasBareNames (d : Draft) : Prop where
  loose : ∀ e ∈ d.loose, IsBareName e.1
  sections : ∀ s ∈ d.sections, IsBareName s.1 ∧ ∀ e ∈ s.2, IsBareName e.1

/-- What is written for a draft gives what the draft holds of a configuration. -/
theorem Holds.givenBy_renderFile {d : Draft} {chosen : String → String → Bool} {c : Config} {text : String}
    (holds : d.Holds chosen c) (bare : d.HasBareNames) (written : renderFile d.loose d.sections = .ok text) :
    ∃ v, read? text = some v ∧ c.GivenBy chosen v := by
  obtain ⟨top, tables, topWritten, tablesWritten, rfl⟩ := renderFile_eq.mp written
  have topNames := (ofEntries_iff.mp topWritten).names
  have inTables : ByName Draft.IsSection d.sections (tables.map tableMemberOf) :=
    tablesWritten.map_right (f := fun scalars => Value.table .header (scalars.map memberOf))
      fun s member _ same => ⟨_, ⟨.header, rfl⟩, byName_memberOf same (d.finite_section s member)⟩
  refine ⟨_, read?_file (isPlainEntry topWritten d.finite_loose bare.loose) ?_ ?_ ?_,
    holds.givenBy ⟨.header, rfl⟩ ?_ inTables⟩
  · intro t member
    obtain ⟨s, here, name, same⟩ := tablesWritten.exists_left member
    obtain ⟨bareName, bareEntries⟩ := bare.sections s here
    exact ⟨name ▸ bareName, isPlainEntry same (d.finite_section s here) bareEntries⟩
  · rw [← topNames, ← tablesWritten.names]
    exact d.distinct
  · intro t member
    obtain ⟨s, here, _, same⟩ := tablesWritten.exists_left member
    rw [← (ofEntries_iff.mp same).names]
    exact d.distinct_section s here
  · rw [topNames, List.map_map]
    rfl

end Draft

/-! ### Configurations -/

namespace Config

variable {c : Config} {text : String}

/-- A configuration can be written if its budget is an integer of the format. All other counts are. -/
theorem renderConfig_isOk : (∃ text, renderConfig c = .ok text) ↔ (c.detail.pointBudget.toNat : Int) ≤ greatestInteger := by
  change (∃ text, renderFile [] c.sections = .ok text) ↔ _
  rw [renderFile_isOk]
  constructor
  · rintro ⟨_, fits⟩
    exact fits ("lod", c.detail.entries) (by simp [sections]) ("point_budget", .count c.detail.pointBudget.toNat)
      (by simp [DetailSettings.entries])
  · intro small
    have most := c.arcs.maxSegments.toNat_lt
    have least := c.arcs.minSegments.toNat_lt
    refine ⟨List.forall_mem_nil _, ?_⟩
    simp only [sections, ArcSettings.entries, DetailSettings.entries, List.forall_mem_cons, Setting.Fits]
    unfold greatestInteger at small ⊢
    refine ⟨⟨trivial, ?_, ?_, trivial, trivial, List.forall_mem_nil _⟩,
      ⟨trivial, small, trivial, trivial, List.forall_mem_nil _⟩, List.forall_mem_nil _⟩
    · omega
    · omega

theorem bare_names :
    ∀ names ∈ [Config.names, ArcSettings.names, DetailSettings.names], ∀ name ∈ names, IsBareName name := by
  decide +kernel

/-- A configuration comes back from its table file. -/
theorem parseConfig_eq (finite : c.IsFinite) (written : renderConfig c = .ok text) : parseConfig text = .ok c := by
  have bare : (Draft.ofConfig c finite).HasBareNames := by
    refine ⟨List.forall_mem_nil _, fun s member => ?_⟩
    change s ∈ c.sections at member
    simp only [sections, List.mem_cons, List.not_mem_nil, or_false] at member
    rcases member with rfl | rfl
    · exact ⟨bare_names names (by simp) "parser" (by decide), fun e entry =>
        bare_names ArcSettings.names (by simp) e.1 (c.arcs.map_entries ▸ List.mem_map_of_mem entry)⟩
    · exact ⟨bare_names names (by simp) "lod" (by decide), fun e entry =>
        bare_names DetailSettings.names (by simp) e.1 (c.detail.map_entries ▸ List.mem_map_of_mem entry)⟩
  obtain ⟨v, read, given⟩ := (Draft.holds_ofConfig finite).givenBy_renderFile bare written
  have whole := read_given given
  rw [overDefaults_all] at whole
  unfold parseConfig
  rw [read]
  exact whole

end Config

end Toolpath

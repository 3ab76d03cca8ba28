import Toolpath.Proofs.Settings.Named
import Toolpath.Settings.Form

/-!
# Settings from their entries

A record that gives some settings of a section under their names is read as the section with these settings over
the defaults, whatever the format and whatever else the record holds.
-/

namespace Toolpath

def Setting.IsFinite : Setting → Prop
  | .number x => x.isFinite = true
  | _ => True

def Config.IsFinite (c : Config) : Prop := ∀ s ∈ c.sections, ∀ e ∈ s.2, e.2.IsFinite

/-! ### Settings over the defaults -/

/-- The chosen settings over the defaults. -/
def ArcSettings.overDefaults (chosen : String → Bool) (s : ArcSettings) : ArcSettings :=
  let standard : ArcSettings := {}
  { detailMultiplier := if chosen "arc_detail_multiplier" then s.detailMultiplier else standard.detailMultiplier
    maxSegments := if chosen "max_arc_segments" then s.maxSegments else standard.maxSegments
    minSegments := if chosen "min_arc_segments" then s.minSegments else standard.minSegments
    minSpacing := if chosen "min_segment_spacing" then s.minSpacing else standard.minSpacing
    helical := if chosen "helical_interpolation" then s.helical else standard.helical }

def DetailSettings.overDefaults (chosen : String → Bool) (s : DetailSettings) : DetailSettings :=
  let standard : DetailSettings := {}
  { enabled := if chosen "enabled" then s.enabled else standard.enabled
    pointBudget := if chosen "point_budget" then s.pointBudget else standard.pointBudget
    keepSmallFeatures :=
      if chosen "preserve_small_features" then s.keepSmallFeatures else standard.keepSmallFeatures
    smallFeatureSize := if chosen "small_feature_threshold" then s.smallFeatureSize else standard.smallFeatureSize }

/-- The settings that are chosen in their sections, over the defaults. -/
def Config.overDefaults (chosen : String → String → Bool) (c : Config) : Config :=
  ⟨c.arcs.overDefaults (chosen "parser"), c.detail.overDefaults (chosen "lod")⟩

section Overlay

variable {chosen : String → Bool}

theorem ArcSettings.overDefaults_none {s : ArcSettings} (none : ∀ e ∈ s.entries, chosen e.1 = false) :
    s.overDefaults chosen = {} := by
  simp only [entries, List.forall_mem_cons] at none
  simp [overDefaults, none]

theorem DetailSettings.overDefaults_none {s : DetailSettings} (none : ∀ e ∈ s.entries, chosen e.1 = false) :
    s.overDefaults chosen = {} := by
  simp only [entries, List.forall_mem_cons] at none
  simp [overDefaults, none]

end Overlay

theorem Config.overDefaults_all (c : Config) : c.overDefaults (fun _ _ => true) = c := rfl

/-! ### Names of entries -/

theorem ArcSettings.map_entries (s : ArcSettings) : s.entries.map Prod.fst = names := rfl

theorem ArcSettings.nodup_names : names.Nodup := by decide

theorem DetailSettings.map_entries (s : DetailSettings) : s.entries.map Prod.fst = names := rfl

theorem DetailSettings.nodup_names : names.Nodup := by decide

theorem Config.map_sections (c : Config) : c.sections.map Prod.fst = names := rfl

theorem Config.nodup_names : names.Nodup := by decide

theorem Config.nodup_section (c : Config) : ∀ s ∈ c.sections, (s.2.map Prod.fst).Nodup := by
  intro s member
  simp only [sections, List.mem_cons, List.not_mem_nil, or_false] at member
  rcases member with rfl | rfl
  · exact ArcSettings.nodup_names
  · exact DetailSettings.nodup_names

/-! ### Entries in a record -/

section Records

variable {V : Type} [Spelling V]

/-- The value of a format is read as the setting. -/
def Setting.SpelledBy (v : V) : Setting → Prop
  | .number x => Spelling.number v = .ok x
  | .count n => ∀ limit, n ≤ limit → Spelling.count limit v = .ok n
  | .flag b => Spelling.flag v = .ok b

/-- Under the name of a chosen entry stands a value that is read as the entry, and nothing stands under the names
of the others. -/
def Gives (chosen : String → Bool) (given : List (String × V)) (entries : List (String × Setting)) : Prop :=
  ∀ e ∈ entries,
    Option.Rel (fun setting v => setting.SpelledBy v) (if chosen e.1 then some e.2 else none) (given.lookup e.1)

variable {v : V} {given : List (String × V)} {entries : List (String × Setting)} {chosen : String → Bool}

omit [Spelling V] in
theorem fieldOr_eq {α : Type} {name : String} {a default : α} {read : V → Except Fault α}
    (found : ∀ v, given.lookup name = some v → read v = .ok a) (absent : given.lookup name = none → default = a) :
    fieldOr given name default read = .ok a := by
  unfold fieldOr
  split
  · next v here => exact found v here
  · next here => rw [absent here]

theorem Gives.fieldOr {α : Type} {name : String} {setting : Setting} {a default : α} {read : V → Except Fault α}
    (gives : Gives chosen given entries) (member : (name, setting) ∈ entries)
    (reads : ∀ v, setting.SpelledBy v → read v = .ok a) :
    fieldOr given name default read = .ok (if chosen name then a else default) := by
  have here := gives (name, setting) member
  dsimp only at here
  cases wanted : chosen name with
  | true =>
    rw [wanted, if_pos rfl] at here
    refine fieldOr_eq (fun v found => ?_) fun absent => ?_
    · rw [found] at here
      cases here with
      | some spelled => exact reads v spelled
    · rw [absent] at here
      cases here
  | false =>
    rw [wanted, if_neg Bool.false_ne_true] at here
    refine fieldOr_eq (fun v found => ?_) fun _ => rfl
    rw [found] at here
    cases here

theorem fieldOr_number {name : String} {x : Float32} {default : Float32} (gives : Gives chosen given entries)
    (member : (name, .number x) ∈ entries) :
    fieldOr given name default Spelling.number = .ok (if chosen name then x else default) :=
  gives.fieldOr member fun _ spelled => spelled

theorem fieldOr_flag {name : String} {b default : Bool} (gives : Gives chosen given entries)
    (member : (name, .flag b) ∈ entries) :
    fieldOr given name default Spelling.flag = .ok (if chosen name then b else default) :=
  gives.fieldOr member fun _ spelled => spelled

theorem fieldOr_count32 {name : String} {n default : UInt32} (gives : Gives chosen given entries)
    (member : (name, .count n.toNat) ∈ entries) :
    fieldOr given name default Spelling.count32 = .ok (if chosen name then n else default) := by
  refine gives.fieldOr member fun v spelled => ?_
  have small := n.toNat_lt
  have read : Spelling.count 4294967295 v = .ok n.toNat := spelled _ (by omega)
  rw [Spelling.count32, read]
  exact congrArg Except.ok UInt32.ofNat_toNat

theorem fieldOr_count64 {name : String} {n default : UInt64} (gives : Gives chosen given entries)
    (member : (name, .count n.toNat) ∈ entries) :
    fieldOr given name default Spelling.count64 = .ok (if chosen name then n else default) := by
  refine gives.fieldOr member fun v spelled => ?_
  have small := n.toNat_lt
  have read : Spelling.count 18446744073709551615 v = .ok n.toNat := spelled _ (by omega)
  rw [Spelling.count64, read]
  exact congrArg Except.ok UInt64.ofNat_toNat

theorem ArcSettings.read_eq {s : ArcSettings} (fields : Spelling.fields names v = .ok given)
    (gives : Gives chosen given s.entries) : read v = .ok (s.overDefaults chosen) := by
  unfold read
  rw [fields]
  dsimp only [bind, Except.bind]
  rw [fieldOr_number gives (x := s.detailMultiplier) (by simp [entries])]
  dsimp only
  rw [fieldOr_count32 gives (n := s.maxSegments) (by simp [entries])]
  dsimp only
  rw [fieldOr_count32 gives (n := s.minSegments) (by simp [entries])]
  dsimp only
  rw [fieldOr_number gives (x := s.minSpacing) (by simp [entries])]
  dsimp only
  rw [fieldOr_flag gives (b := s.helical) (by simp [entries])]
  rfl

theorem DetailSettings.read_eq {s : DetailSettings} (fields : Spelling.fields names v = .ok given)
    (gives : Gives chosen given s.entries) : read v = .ok (s.overDefaults chosen) := by
  unfold read
  rw [fields]
  dsimp only [bind, Except.bind]
  rw [fieldOr_flag gives (b := s.enabled) (by simp [entries])]
  dsimp only
  rw [fieldOr_count64 gives (n := s.pointBudget) (by simp [entries])]
  dsimp only
  rw [fieldOr_flag gives (b := s.keepSmallFeatures) (by simp [entries])]
  dsimp only
  rw [fieldOr_number gives (x := s.smallFeatureSize) (by simp [entries])]
  rfl

end Records

end Toolpath

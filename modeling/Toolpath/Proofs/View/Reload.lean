import Toolpath.Proofs.Program.SameSettings
import Toolpath.Proofs.View.Session

/-!
# Loading a text again

A viewer that is asked for the text of its document keeps the document. That is right only while the settings
that arcs are cut by stay the same; `UpToDate` is what the kept text stands for, and every action preserves it.
The viewer is clean as long as no action has disturbed it since it was last cleared.
-/

namespace Toolpath.Viewer

variable {v : Viewer}

/-- The text that is kept, if any, has the document on display under the settings in force. -/
def UpToDate (v : Viewer) : Prop :=
  ∀ text, v.documents.text = some text → v.document = Document.ofProgram v.config.arcs text

theorem upToDate_ofConfig (config : Config) : (ofConfig config).UpToDate := by
  intro text kept
  cases kept

/-! ### Taking over settings -/

theorem setConfig_of_same {config : Config} (same : config.same v.config = true) : v.setConfig config = v := by
  unfold setConfig
  rw [if_pos same]

theorem setConfig_of_not_same {config : Config} (changed : config.same v.config = false) :
    v.setConfig config =
      { v with
        config := config
        documents := if config.arcs.same v.config.arcs then v.documents else v.documents.markStale
        renders := {}
        dirty := true } := by
  simp only [setConfig, changed, Bool.false_eq_true, ↓reduceIte]

theorem upToDate_setConfig (current : v.UpToDate) (config : Config) : (v.setConfig config).UpToDate := by
  cases changed : config.same v.config with
  | true =>
    rw [setConfig_of_same changed]
    exact current
  | false =>
    rw [setConfig_of_not_same changed]
    intro text kept
    dsimp only [document] at kept ⊢
    split at kept
    · next same =>
      -- The numbers may have changed their bits, but not what any program looks like under them.
      rw [if_pos same, Document.ofProgram_of_same same]
      exact current text kept
    · cases kept

/-! ### Loading -/

theorem load_of_needs {text : String} (needs : v.documents.needs text = true) :
    v.load text =
      (true,
        { v with
          documents := v.documents.update text (Document.ofProgram v.config.arcs text)
          renders := {}
          dirty := true }) := by
  unfold load
  rw [if_pos needs]

theorem load_of_not_needs {text : String} (kept : v.documents.needs text = false) : v.load text = (false, v) := by
  simp only [load, kept, Bool.false_eq_true, ↓reduceIte]

theorem text_of_not_needs {text : String} (kept : v.documents.needs text = false) :
    v.documents.text = some text := by
  simpa [DocumentCache.needs] using kept

theorem config_load (v : Viewer) (text : String) : (v.load text).2.config = v.config := by
  cases needs : v.documents.needs text with
  | true => rw [load_of_needs needs]
  | false => rw [load_of_not_needs needs]

/-- After a text is loaded its document is on display, whether it had to be interpreted or not. -/
theorem document_load (current : v.UpToDate) (text : String) :
    (v.load text).2.document = Document.ofProgram v.config.arcs text := by
  cases needs : v.documents.needs text with
  | true =>
    rw [load_of_needs needs]
    rfl
  | false =>
    rw [load_of_not_needs needs]
    exact current text (text_of_not_needs needs)

theorem load_of_kept {text : String} (kept : (v.load text).1 = false) : (v.load text).2 = v := by
  cases needs : v.documents.needs text with
  | true =>
    rw [load_of_needs needs] at kept
    cases kept
  | false => rw [load_of_not_needs needs]

/-- A text that has just been loaded is not interpreted again. -/
theorem load_again (v : Viewer) (text : String) : (v.load text).2.load text = (false, (v.load text).2) := by
  apply load_of_not_needs
  cases needs : v.documents.needs text with
  | true =>
    rw [load_of_needs needs]
    simp [DocumentCache.needs, DocumentCache.update]
  | false =>
    rw [load_of_not_needs needs]
    exact needs

theorem upToDate_load (current : v.UpToDate) (text : String) : (v.load text).2.UpToDate := by
  cases needs : v.documents.needs text with
  | true =>
    rw [load_of_needs needs]
    intro other kept
    obtain rfl : text = other := Option.some.inj kept
    rfl
  | false =>
    rw [load_of_not_needs needs]
    exact current

/-! ### Sessions -/

theorem upToDate_act (current : v.UpToDate) (a : Action) : (v.act a).UpToDate := by
  cases a with
  | start config => exact upToDate_ofConfig config
  | setConfig config => exact upToDate_setConfig current config
  | load text => exact upToDate_load current text
  | render camera filter => exact current
  | clearDirty => exact current
  | move m =>
    rw [act, moveCamera_eq]
    exact current
  | place camera => exact current

theorem upToDate_session (config : Config) (actions : List Action) : (session config actions).UpToDate := by
  induction actions using List.reverseRecOn with
  | nil => exact upToDate_ofConfig config
  | append_singleton before a ih =>
    rw [session_concat]
    exact upToDate_act ih a

theorem text_act {a : Action} {text : String} (kept : (v.act a).documents.text = some text) :
    a = .load text ∨ v.documents.text = some text := by
  cases a with
  | start config => cases kept
  | setConfig config =>
    cases changed : config.same v.config with
    | true =>
      rw [act, setConfig_of_same changed] at kept
      exact Or.inr kept
    | false =>
      rw [act, setConfig_of_not_same changed] at kept
      dsimp only at kept
      split at kept
      · exact Or.inr kept
      · cases kept
  | load other =>
    cases needs : v.documents.needs other with
    | true =>
      rw [act, load_of_needs needs] at kept
      obtain rfl : other = text := Option.some.inj kept
      exact Or.inl rfl
    | false =>
      rw [act, load_of_not_needs needs] at kept
      exact Or.inr kept
  | render camera filter => exact Or.inr kept
  | clearDirty => exact Or.inr kept
  | move m =>
    rw [act, moveCamera_eq] at kept
    exact Or.inr kept
  | place camera => exact Or.inr kept

/-- The text that is kept is one that was loaded. -/
theorem text_session {config : Config} {actions : List Action} {text : String}
    (kept : (session config actions).documents.text = some text) : .load text ∈ actions := by
  induction actions using List.reverseRecOn with
  | nil => cases kept
  | append_singleton before a ih =>
    rw [session_concat] at kept
    rcases text_act kept with rfl | earlier
    · exact List.mem_concat_self
    · exact List.mem_append_left [a] (ih earlier)

/-! ### Disturbances -/

/-- The action puts up another viewer or changes what this one shows: the settings, or the document. -/
def disturbs (v : Viewer) : Action → Bool
  | .start _ => true
  | .setConfig config => !config.same v.config
  | .load text => (v.load text).1
  | _ => false

def Undisturbed : Viewer → List Action → Prop
  | _, [] => True
  | v, a :: later => v.disturbs a = false ∧ Undisturbed (v.act a) later

theorem undisturbed_concat (v : Viewer) (actions : List Action) (a : Action) :
    v.Undisturbed (actions ++ [a]) ↔ v.Undisturbed actions ∧ (actions.foldl act v).disturbs a = false := by
  induction actions generalizing v with
  | nil => simp [Undisturbed]
  | cons b actions ih => simp only [List.cons_append, Undisturbed, ih, List.foldl_cons, and_assoc]

theorem dirty_act {a : Action} (other : a ≠ .clearDirty) (v : Viewer) :
    (v.act a).dirty = (v.dirty || v.disturbs a) := by
  cases a with
  | start config => simp [act, disturbs, ofConfig]
  | setConfig config =>
    cases changed : config.same v.config with
    | true => simp [act, disturbs, changed, setConfig_of_same changed]
    | false => simp [act, disturbs, changed, setConfig_of_not_same changed]
  | load text =>
    cases needs : v.documents.needs text with
    | true => simp [act, disturbs, load_of_needs needs]
    | false => simp [act, disturbs, load_of_not_needs needs]
  | render camera filter => simp [act, disturbs, render]
  | clearDirty => exact absurd rfl other
  | move m =>
    rw [act, moveCamera_eq]
    simp [disturbs]
  | place camera => simp [act, disturbs]

/-- The session was cleared after `before` for the last time, and nothing has disturbed it since. -/
structure ClearedAfter (config : Config) (before after actions : List Action) : Prop where
  cut : actions = before ++ .clearDirty :: after
  last : .clearDirty ∉ after
  undisturbed : (session config before).clearDirty.Undisturbed after

theorem ClearedAfter.session_eq {config : Config} {before after actions : List Action}
    (cleared : ClearedAfter config before after actions) :
    session config actions = after.foldl act (session config before).clearDirty := by
  rw [cleared.cut]
  unfold session
  rw [List.foldl_append, List.foldl_cons]
  rfl

theorem clearedAfter_concat {config : Config} {actions : List Action} {a : Action} (other : a ≠ .clearDirty) :
    (∃ before after, ClearedAfter config before after (actions ++ [a])) ↔
      (∃ before after, ClearedAfter config before after actions) ∧
        (session config actions).disturbs a = false := by
  constructor
  · rintro ⟨before, after, cleared⟩
    have cut := cleared.cut
    rcases List.eq_nil_or_concat after with rfl | ⟨after, last, rfl⟩
    · obtain ⟨-, same⟩ := List.append_inj' cut rfl
      exact absurd (List.singleton_inj.mp same) other
    · rw [List.concat_eq_append] at cut cleared
      rw [← List.cons_append, ← List.append_assoc] at cut
      obtain ⟨earlier, same⟩ := List.append_inj' cut rfl
      obtain rfl : a = last := List.singleton_inj.mp same
      obtain ⟨undisturbed, quiet⟩ := (undisturbed_concat _ after a).mp cleared.undisturbed
      have uncleared : .clearDirty ∉ after := fun member => cleared.last (List.mem_append_left [a] member)
      have shorter : ClearedAfter config before after actions := ⟨earlier, uncleared, undisturbed⟩
      refine ⟨⟨before, after, shorter⟩, ?_⟩
      rw [shorter.session_eq]
      exact quiet
  · rintro ⟨⟨before, after, cleared⟩, quiet⟩
    rw [cleared.session_eq] at quiet
    refine ⟨before, after ++ [a], ?_, ?_, ?_⟩
    · rw [cleared.cut, List.append_assoc, List.cons_append]
    · simpa [cleared.last] using Ne.symm other
    · exact (undisturbed_concat _ after a).mpr ⟨cleared.undisturbed, quiet⟩

/-- A viewer is clean exactly when it was cleared and nothing has disturbed it since. -/
theorem dirty_session (config : Config) (actions : List Action) :
    (session config actions).dirty = false ↔ ∃ before after, ClearedAfter config before after actions := by
  induction actions using List.reverseRecOn with
  | nil =>
    refine iff_of_false (by simp [session, ofConfig]) ?_
    rintro ⟨before, after, cleared⟩
    simpa using cleared.cut
  | append_singleton actions a ih =>
    rw [session_concat]
    by_cases clears : a = .clearDirty
    · subst clears
      have cleared : ClearedAfter config actions [] (actions ++ [.clearDirty]) := ⟨rfl, List.not_mem_nil, trivial⟩
      exact iff_of_true rfl ⟨actions, [], cleared⟩
    · rw [dirty_act clears, Bool.or_eq_false_iff, ih, clearedAfter_concat clears]

end Toolpath.Viewer

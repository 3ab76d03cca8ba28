import Toolpath.Proofs.View.Reload

/-!
# Texts told apart by a digest

A viewer may keep a digest of the last text in place of the text itself. As long as the digest tells the texts
of a session apart, this viewer goes through the session in step with the one that keeps the text, and loading
a text again is detected just as reliably.
-/

namespace Toolpath

/-- A viewer with a digest of the last text. The viewer inside keeps no text. -/
structure DigestViewer (κ : Type) where
  viewer : Viewer
  digest : Option κ := none

namespace DigestViewer

variable {κ : Type}

def setConfig (d : DigestViewer κ) (config : Config) : DigestViewer κ :=
  if config.same d.viewer.config then d
  else
    { viewer := d.viewer.setConfig config
      digest := if config.arcs.same d.viewer.config.arcs then d.digest else none }

section Digest

variable [DecidableEq κ] (digest : String → κ)

/-- Interprets a text, unless the digest is that of the last one. -/
def load (d : DigestViewer κ) (text : String) : Bool × DigestViewer κ :=
  if d.digest ≠ some (digest text) then
    (true,
      { viewer :=
          { d.viewer with
            documents := { document := Document.ofProgram d.viewer.config.arcs text }
            renders := {}
            dirty := true }
        digest := some (digest text) })
  else (false, d)

def act (d : DigestViewer κ) : Action → DigestViewer κ
  | .start config => { viewer := .ofConfig config }
  | .setConfig config => d.setConfig config
  | .load text => (d.load digest text).2
  | .render camera filter => { d with viewer := (d.viewer.render camera filter).2 }
  | .clearDirty => { d with viewer := d.viewer.clearDirty }
  | .move m => { d with viewer := d.viewer.moveCamera m }
  | .place camera => { d with viewer := { d.viewer with camera := camera } }

def session (config : Config) (actions : List Action) : DigestViewer κ :=
  actions.foldl (act digest) { viewer := .ofConfig config }

end Digest

/-- The viewer with the digest of its text in place of the text. -/
def ofViewer (digest : String → κ) (v : Viewer) : DigestViewer κ :=
  { viewer := { v with documents := { v.documents with text := none } }
    digest := v.documents.text.map digest }

/-- The viewer keeps no other text with the digest of this one. -/
def TellsApart (digest : String → κ) (v : Viewer) (text : String) : Prop :=
  ∀ kept, v.documents.text = some kept → digest kept = digest text → kept = text

/-! ### In step -/

section InStep

variable {digest : String → κ}

theorem setConfig_ofViewer (v : Viewer) (config : Config) :
    (ofViewer digest v).setConfig config = ofViewer digest (v.setConfig config) := by
  cases changed : config.same v.config with
  | true =>
    rw [Viewer.setConfig_of_same changed]
    exact if_pos changed
  | false =>
    have other : ¬config.same (ofViewer digest v).viewer.config = true := Bool.eq_false_iff.mp changed
    have inner := Viewer.setConfig_of_not_same (v := (ofViewer digest v).viewer) changed
    rw [setConfig, if_neg other, inner, Viewer.setConfig_of_not_same changed]
    by_cases kept : config.arcs.same v.config.arcs = true
    · have inside : config.arcs.same (ofViewer digest v).viewer.config.arcs = true := kept
      rw [if_pos kept, if_pos inside, if_pos inside]
      rfl
    · have inside : ¬config.arcs.same (ofViewer digest v).viewer.config.arcs = true := kept
      rw [if_neg kept, if_neg inside, if_neg inside]
      rfl

theorem moveCamera_ofViewer (v : Viewer) (m : CameraMove) :
    (ofViewer digest v).viewer.moveCamera m = (ofViewer digest (v.moveCamera m)).viewer := by
  cases m with
  | fit width height =>
    have shown : (ofViewer digest v).viewer.document = v.document := rfl
    unfold Viewer.moveCamera Viewer.fit
    rw [shown]
    cases v.document.cuttingBounds? with
    | none => rfl
    | some b => dsimp only; split <;> rfl
  | _ => rfl

variable [DecidableEq κ]

theorem load_ofViewer {v : Viewer} {text : String} (tells : TellsApart digest v text) :
    (ofViewer digest v).load digest text = ((v.load text).1, ofViewer digest (v.load text).2) := by
  cases needs : v.documents.needs text with
  | true =>
    have fresh : (ofViewer digest v).digest ≠ some (digest text) := by
      intro hit
      obtain ⟨kept, keeps, alike⟩ := Option.map_eq_some_iff.mp hit
      have same : kept = text := tells kept keeps alike
      simp [DocumentCache.needs, keeps, same] at needs
    rw [load, if_pos fresh, Viewer.load_of_needs needs]
    rfl
  | false =>
    have keeps := Viewer.text_of_not_needs needs
    have hit : ¬(ofViewer digest v).digest ≠ some (digest text) := by simp [ofViewer, keeps]
    rw [load, if_neg hit, Viewer.load_of_not_needs needs]

theorem act_ofViewer {v : Viewer} {a : Action}
    (tells : ∀ text, a = .load text → TellsApart digest v text) :
    (ofViewer digest v).act digest a = ofViewer digest (v.act a) := by
  cases a with
  | start config => rfl
  | setConfig config => exact setConfig_ofViewer v config
  | load text =>
    show ((ofViewer digest v).load digest text).2 = ofViewer digest (v.load text).2
    rw [load_ofViewer (tells text rfl)]
  | render camera filter => rfl
  | clearDirty => rfl
  | move m =>
    rw [act, moveCamera_ofViewer, Viewer.act, Viewer.moveCamera_eq]
    rfl
  | place camera => rfl

theorem session_eq_ofViewer {config : Config} {actions : List Action}
    (tells : Set.InjOn digest {text | .load text ∈ actions}) :
    session digest config actions = ofViewer digest (Viewer.session config actions) := by
  induction actions using List.reverseRecOn with
  | nil => rfl
  | append_singleton before a ih =>
    have earlier : Set.InjOn digest {text | .load text ∈ before} :=
      tells.mono fun text member => List.mem_append_left [a] member
    have last : ∀ text, a = .load text → TellsApart digest (Viewer.session config before) text := by
      rintro text rfl kept keeps alike
      exact tells (List.mem_append_left _ (Viewer.text_session keeps)) List.mem_concat_self alike
    have stepped : session digest config (before ++ [a]) = (session digest config before).act digest a :=
      List.foldl_concat _ _ _ _
    rw [stepped, ih earlier, act_ofViewer last, Viewer.session_concat]

end InStep

/-- With a digest that tells the texts of a session apart, a text that is loaded at the end of it has its
document on display, interpreted anew or not. Where it is not interpreted nothing changes, and a text that
has just been loaded is not interpreted again. -/
theorem reload_detected [DecidableEq κ] (digest : String → κ) (config : Config) (actions : List Action)
    (text : String) (tells : Set.InjOn digest {other | other = text ∨ .load other ∈ actions}) :
    let v := Viewer.session config actions
    let d := session digest config actions
    d = ofViewer digest v ∧
    d.load digest text = ((v.load text).1, ofViewer digest (v.load text).2) ∧
    (v.load text).2.config = v.config ∧
    (v.load text).2.document = Document.ofProgram v.config.arcs text ∧
    ((v.load text).1 = false → (v.load text).2 = v) ∧
    (v.load text).2.load text = (false, (v.load text).2) ∧
    (v.dirty = false ↔ ∃ before after, Viewer.ClearedAfter config before after actions) := by
  intro v d
  have inStep : d = ofViewer digest v := session_eq_ofViewer (tells.mono fun other member => Or.inr member)
  have last : TellsApart digest v text := by
    intro kept keeps alike
    exact tells (Or.inr (Viewer.text_session keeps)) (Or.inl rfl) alike
  refine ⟨inStep, ?_, Viewer.config_load v text, ?_, Viewer.load_of_kept, Viewer.load_again v text,
    Viewer.dirty_session config actions⟩
  · rw [inStep]
    exact load_ofViewer last
  · exact Viewer.document_load (Viewer.upToDate_session config actions) text

/-- Two texts, and then settings that differ in the sign of a zero. -/
def zeroNegated : List Action :=
  [.load "G0 X2 Y3", .load "G1 X1", .clearDirty, .setConfig { arcs := { minSpacing := -0 } }]

theorem kept_under_negative_zero :
    let v := Viewer.session { arcs := { minSpacing := 0 } } zeroNegated
    Set.InjOn String.length {other | other = "G1 X1" ∨ .load other ∈ zeroNegated} ∧
      (v.load "G1 X1").1 = false ∧ (v.load "G1 X1").2 = v ∧
      (v.load "G1 X1").2.document = Document.ofProgram v.config.arcs "G1 X1" := by
  intro v
  have tells : Set.InjOn String.length {other | other = "G1 X1" ∨ .load other ∈ zeroNegated} := by
    have texts : ∀ other, other = "G1 X1" ∨ .load other ∈ zeroNegated →
        other = "G1 X1" ∨ other = "G0 X2 Y3" := by
      simp [zeroNegated]
    intro one left other right alike
    rcases texts one left with rfl | rfl <;> rcases texts other right with rfl | rfl
    · rfl
    · exact absurd alike (by decide)
    · exact absurd alike (by decide)
    · rfl
  have kept : (v.load "G1 X1").1 = false := by decide +kernel
  obtain ⟨-, -, -, document, unchanged, -, -⟩ :=
    reload_detected String.length { arcs := { minSpacing := 0 } } zeroNegated "G1 X1" tells
  exact ⟨tells, kept, unchanged kept, document⟩

end DigestViewer

end Toolpath

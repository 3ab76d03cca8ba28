import Toolpath.Proofs.View.Session

/-!
# The level that a bucket is served at

Buckets of the zoom and levels of detail cut the zooms in different places, so that one bucket can hold
cameras on two levels. The cache answers by bucket. `Ledger` keeps, for each bucket that is remembered, the
level of the camera that drew it first, and `render_eq_simplified_served` says that this level is the one
that every later camera in the bucket gets.
-/

namespace Toolpath

/-- The remembered buckets, each with the level that it was first drawn at. -/
abbrev Ledger := List (Bucket × Level)

namespace Ledger

/-- The level that a camera gets: that of its bucket, or else its own. -/
def served (drawn : Ledger) (bucket : Bucket) (level : Level) : Level := (drawn.lookup bucket).getD level

/-- A bucket is entered once, and a full ledger is emptied for it. -/
def enter (drawn : Ledger) (bucket : Bucket) (level : Level) : Ledger :=
  match drawn.lookup bucket with
  | some _ => drawn
  | none => (bucket, level) :: if RenderCache.capacity ≤ drawn.length then [] else drawn

theorem mem_enter {drawn : Ledger} {bucket : Bucket} {level : Level} {e : Bucket × Level}
    (member : e ∈ drawn.enter bucket level) : e = (bucket, level) ∨ e ∈ drawn := by
  unfold enter at member
  split at member
  · exact Or.inr member
  · rcases List.mem_cons.mp member with rfl | old
    · exact Or.inl rfl
    · split at old
      · cases old
      · exact Or.inr old

theorem lookup_map {α : Type} (f : Bucket → Level → α) (drawn : Ledger) (bucket : Bucket) :
    (drawn.map fun e => (e.1, f e.1 e.2)).lookup bucket = (drawn.lookup bucket).map (f bucket) := by
  induction drawn with
  | nil => rfl
  | cons e drawn ih =>
    rw [List.map_cons, List.lookup_cons, List.lookup_cons]
    cases same : bucket == e.1 with
    | true =>
      rw [beq_iff_eq.mp same]
      rfl
    | false => exact ih

end Ledger

/-! ### One request to the cache -/

namespace RenderCache

/-- The cache holds what would be built now: every list is the one of its filter and level, and every
bucket has the list of the level in the ledger. -/
structure Faithful (cache : RenderCache) (build : Filter → Level → List Segment) (drawn : Ledger) :
    Prop where
  lists : ∀ e ∈ cache.lists, e.2 = build e.1.1 e.1.2
  buckets : cache.buckets = drawn.map fun e => (e.1, build e.1.filter e.2)

variable {cache : RenderCache} {build : Filter → Level → List Segment} {drawn : Ledger}

theorem faithful_empty (build : Filter → Level → List Segment) : Faithful {} build [] :=
  ⟨fun _ member => (List.not_mem_nil member).elim, rfl⟩

theorem get?_of_faithful (faithful : Faithful cache build drawn) (bucket : Bucket) :
    cache.get? bucket = (drawn.lookup bucket).map (build bucket.filter) := by
  rw [get?, faithful.buckets, Ledger.lookup_map fun b l => build b.filter l]

theorem faithful_makeRoom (faithful : Faithful cache build drawn) :
    Faithful cache.makeRoom build (if capacity ≤ drawn.length then [] else drawn) := by
  have size : cache.buckets.length = drawn.length := by rw [faithful.buckets, List.length_map]
  unfold makeRoom
  rw [size]
  split
  · exact ⟨faithful.lists, rfl⟩
  · exact faithful

theorem list_of_faithful (faithful : Faithful cache build drawn) (filter : Filter) (level : Level) :
    (cache.list filter level fun _ => build filter level).segments = build filter level ∧
      Faithful (cache.list filter level fun _ => build filter level).cache build drawn := by
  unfold list
  split
  · next segments found =>
    obtain ⟨before, after, split, _⟩ := List.lookup_eq_some_iff.mp found
    have member : ((filter, level), segments) ∈ cache.lists := by simp [split]
    exact ⟨faithful.lists _ member, faithful⟩
  · refine ⟨rfl, ?_, faithful.buckets⟩
    intro e member
    rcases List.mem_cons.mp member with rfl | old
    · rfl
    · exact faithful.lists e old

/-- A request is answered for the level that the ledger has, and enters its bucket. -/
theorem getOrBuild_of_faithful (faithful : Faithful cache build drawn) (bucket : Bucket) (level : Level) :
    (cache.getOrBuild bucket level fun _ => build bucket.filter level).segments =
        build bucket.filter (drawn.served bucket level) ∧
      Faithful (cache.getOrBuild bucket level fun _ => build bucket.filter level).cache build
        (drawn.enter bucket level) := by
  have remembered := get?_of_faithful faithful bucket
  unfold getOrBuild Ledger.served Ledger.enter
  cases entry : drawn.lookup bucket with
  | some first =>
    rw [entry, Option.map_some] at remembered
    rw [remembered]
    exact ⟨rfl, faithful⟩
  | none =>
    rw [entry, Option.map_none] at remembered
    rw [remembered]
    obtain ⟨answer, kept⟩ := list_of_faithful (faithful_makeRoom faithful) bucket.filter level
    exact ⟨answer, kept.lists, by simp only [remember, kept.buckets, answer, List.map_cons]⟩

end RenderCache

/-! ### Sessions -/

namespace Viewer

/-- The ledger after one action. It is emptied by whatever changes the segments to draw. -/
def ledgerAfter (v : Viewer) (drawn : Ledger) : Action → Ledger
  | .start _ => []
  | .setConfig config => if config.same v.config then drawn else []
  | .load text => if v.documents.needs text then [] else drawn
  | .render camera filter => drawn.enter (Bucket.of filter camera) (.ofZoom camera.zoom)
  | .clearDirty | .move _ | .place _ => drawn

def ledger (v : Viewer) (drawn : Ledger) : List Action → Ledger
  | [] => drawn
  | a :: actions => (v.act a).ledger (v.ledgerAfter drawn a) actions

def fresh (v : Viewer) (camera : Camera) (filter : Filter) : List Segment :=
  v.simplified filter (.ofZoom camera.zoom)

variable {v : Viewer} {drawn : Ledger}

def Faithful (v : Viewer) (drawn : Ledger) : Prop := v.renders.Faithful v.simplified drawn

theorem render_of_faithful (faithful : v.Faithful drawn) (camera : Camera) (filter : Filter) :
    (v.render camera filter).1 =
        v.simplified filter (drawn.served (Bucket.of filter camera) (.ofZoom camera.zoom)) ∧
      (v.render camera filter).2.Faithful (drawn.enter (Bucket.of filter camera) (.ofZoom camera.zoom)) :=
  RenderCache.getOrBuild_of_faithful faithful (Bucket.of filter camera) (.ofZoom camera.zoom)

theorem faithful_act (faithful : v.Faithful drawn) (a : Action) :
    (v.act a).Faithful (v.ledgerAfter drawn a) := by
  cases a with
  | start config => exact RenderCache.faithful_empty _
  | setConfig config =>
    simp only [act, ledgerAfter, setConfig]
    split
    · exact faithful
    · exact RenderCache.faithful_empty _
  | load text =>
    simp only [act, ledgerAfter, load]
    split
    · exact RenderCache.faithful_empty _
    · exact faithful
  | render camera filter => exact (render_of_faithful faithful camera filter).2
  | clearDirty | place camera => exact faithful
  | move m =>
    simp only [act, ledgerAfter]
    rw [moveCamera_eq]
    exact faithful

theorem faithful_foldl (faithful : v.Faithful drawn) (actions : List Action) :
    (actions.foldl act v).Faithful (v.ledger drawn actions) := by
  induction actions generalizing v drawn with
  | nil => exact faithful
  | cons a actions ih => exact ih (faithful_act faithful a)

theorem faithful_session (config : Config) (actions : List Action) :
    (session config actions).Faithful ((ofConfig config).ledger [] actions) :=
  faithful_foldl (v := ofConfig config) (RenderCache.faithful_empty _) actions

/-- Every entry of the ledger goes back to a camera of the session. -/
theorem render_of_mem_ledger (actions : List Action) {e : Bucket × Level}
    (member : e ∈ v.ledger drawn actions) :
    e ∈ drawn ∨ ∃ camera filter, Action.render camera filter ∈ actions ∧
      Bucket.of filter camera = e.1 ∧ Level.ofZoom camera.zoom = e.2 := by
  induction actions generalizing v drawn with
  | nil => exact Or.inl member
  | cons a actions ih =>
    rcases ih member with old | ⟨camera, filter, drew, bucket, level⟩
    -- An entry that the later actions have not made is older than this action, or its own.
    · cases a with
      | start config => cases old
      | setConfig config | load text =>
        simp only [ledgerAfter] at old
        split at old
        · first | exact Or.inl old | cases old
        · first | exact Or.inl old | cases old
      | render camera filter =>
        rcases Ledger.mem_enter old with rfl | older
        · exact Or.inr ⟨camera, filter, List.mem_cons_self, rfl, rfl⟩
        · exact Or.inl older
      | clearDirty | place camera | move m => exact Or.inl old
    · exact Or.inr ⟨camera, filter, List.mem_cons_of_mem _ drew, bucket, level⟩

/-- A camera gets the segments of the level that its bucket was first drawn at since the table of buckets
was last emptied. They are the segments computed afresh exactly when that level and the level of the camera
give the same segments, and the two levels differ only after a camera on the other level has been in the
bucket. -/
theorem render_eq_simplified_served (config : Config) (actions : List Action) (camera : Camera)
    (filter : Filter) :
    let v := session config actions
    let level := ((ofConfig config).ledger [] actions).served (Bucket.of filter camera) (.ofZoom camera.zoom)
    (v.render camera filter).1 = v.simplified filter level ∧
      ((v.render camera filter).1 = v.fresh camera filter ↔
        v.simplified filter level = v.simplified filter (.ofZoom camera.zoom)) ∧
      (level = .ofZoom camera.zoom ∨ ∃ earlier, Action.render earlier filter ∈ actions ∧
        Bucket.of filter earlier = Bucket.of filter camera ∧ Level.ofZoom earlier.zoom = level) := by
  intro v level
  have answer : (v.render camera filter).1 = v.simplified filter level :=
    (render_of_faithful (faithful_session config actions) camera filter).1
  refine ⟨answer, by rw [answer, fresh], ?_⟩
  cases entry : ((ofConfig config).ledger [] actions).lookup (Bucket.of filter camera) with
  | none =>
    have own : level = .ofZoom camera.zoom := by simp only [level, Ledger.served, entry, Option.getD_none]
    exact Or.inl own
  | some first =>
    have served : level = first := by simp only [level, Ledger.served, entry, Option.getD_some]
    obtain ⟨before, after, split, _⟩ := List.lookup_eq_some_iff.mp entry
    have member : (Bucket.of filter camera, first) ∈ (ofConfig config).ledger [] actions := by simp [split]
    rcases render_of_mem_ledger actions member with old | ⟨earlier, through, drew, bucket, drawn⟩
    · cases old
    · obtain rfl : through = filter := congrArg Bucket.filter bucket
      exact Or.inr ⟨earlier, drew, bucket, drawn.trans served.symm⟩

/-! ### A bucket with two levels -/

theorem zoomBucket_of_improper {zoom : Float32} (improper : (zoom.isFinite && 0 < zoom) = false) :
    Camera.zoomBucket zoom = Camera.zoomBucket 0 := by
  have zero : ((0 : Float32).isFinite && (0 : Float32) < 0) = false := by decide
  simp only [Camera.zoomBucket, improper, zero, Bool.false_eq_true, ↓reduceIte]

/-- An endless zoom and none at all are in one bucket, though on the finest and the coarsest level. A line
of nine points is drawn whole for the first, and still for the second, which has two points for it when
computed afresh. -/
theorem first_level_kept :
    let config : Config := { detail := { pointBudget := 9 } }
    let near : Camera := { zoom := Single.infinity }
    let far : Camera := { zoom := 0 }
    let actions := [Action.load "G1 X1\nX2\nX3\nX4\nX5\nX6\nX7\nX8\nX9", .render near .all]
    let v := session config actions
    (v.render far .all).1 ≠ v.fresh far .all := by
  intro config near far actions v same
  have bucket : Bucket.of .all near = Bucket.of .all far := by
    simp only [Bucket.of, near, far, @zoomBucket_of_improper Single.infinity (by decide)]
  have drawn : (ofConfig config).ledger [] actions = [(Bucket.of .all near, .full)] := by
    have finest : Level.ofZoom near.zoom = .full := by decide
    simp only [actions, ledger, ledgerAfter, ite_self, finest]
    rfl
  have answer : (v.render far .all).1 = v.simplified .all .full := by
    have served := (render_of_faithful (faithful_session config actions) far .all).1
    rwa [drawn, Ledger.served, bucket, List.lookup_cons_self, Option.getD_some] at served
  have whole : (v.simplified .all .full).map Segment.length = [9] := by decide +kernel
  have thinned : (v.fresh far .all).map Segment.length = [2] := by decide +kernel
  rw [← same, answer, whole] at thinned
  cases thinned

end Viewer

end Toolpath

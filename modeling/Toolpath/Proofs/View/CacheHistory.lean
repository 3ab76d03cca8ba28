import Toolpath.Proofs.View.ServedLevel

/-!
# What the cache of segments holds over time

In a session the lists are those of the present document and settings, and every bucket has one of them. For
the cache alone, whoever calls it, `builds_nodup` says that a list is built once until the cache is dropped:
a full table of buckets is emptied, but the lists outlive it.
-/

namespace Toolpath

namespace RenderCache

/-- Lists and buckets are entered once, a bucket shares a list of its own filter, and the buckets fit in
their table. -/
structure WellKept (cache : RenderCache) : Prop where
  lists : (cache.lists.map Prod.fst).Nodup
  buckets : (cache.buckets.map Prod.fst).Nodup
  shared : ∀ e ∈ cache.buckets, ∃ level, ((e.1.filter, level), e.2) ∈ cache.lists
  bounded : cache.buckets.length ≤ capacity

variable {cache : RenderCache} {bucket : Bucket} {level : Level} {build : Unit → List Segment}

theorem wellKept_empty : WellKept {} :=
  ⟨List.nodup_nil, List.nodup_nil, fun _ member => (List.not_mem_nil member).elim, Nat.zero_le _⟩

theorem wellKept_makeRoom (kept : cache.WellKept) :
    cache.makeRoom.WellKept ∧ cache.makeRoom.buckets.length < capacity := by
  unfold makeRoom
  split
  · exact ⟨⟨kept.lists, List.nodup_nil, fun _ member => (List.not_mem_nil member).elim, Nat.zero_le _⟩,
      Nat.zero_lt_succ _⟩
  · exact ⟨kept, by omega⟩

theorem get?_makeRoom (absent : cache.get? bucket = none) : cache.makeRoom.get? bucket = none := by
  unfold makeRoom
  split
  · rfl
  · exact absent

theorem not_mem_keys {α β : Type} [BEq α] [LawfulBEq α] {entries : List (α × β)} {key : α}
    (absent : entries.lookup key = none) : key ∉ entries.map Prod.fst := by
  intro member
  obtain ⟨e, old, rfl⟩ := List.mem_map.mp member
  have differs := List.lookup_eq_none_iff.mp absent e old
  simp at differs

/-- A list that is asked for is among the lists afterwards, and nothing else changes. -/
theorem wellKept_list (kept : cache.WellKept) (filter : Filter) (level : Level)
    (build : Unit → List Segment) :
    let found := cache.list filter level build
    found.cache.WellKept ∧ found.cache.buckets = cache.buckets ∧
      ((filter, level), found.segments) ∈ found.cache.lists := by
  unfold list
  cases entry : cache.lists.lookup (filter, level) with
  | some segments =>
    obtain ⟨before, after, split, _⟩ := List.lookup_eq_some_iff.mp entry
    exact ⟨kept, rfl, by simp [split]⟩
  | none =>
    refine ⟨⟨List.nodup_cons.mpr ⟨not_mem_keys entry, kept.lists⟩, kept.buckets, ?_, kept.bounded⟩, rfl,
      List.mem_cons_self⟩
    intro e member
    obtain ⟨level, held⟩ := kept.shared e member
    exact ⟨level, List.mem_cons_of_mem _ held⟩

theorem wellKept_getOrBuild (kept : cache.WellKept) (bucket : Bucket) (level : Level)
    (build : Unit → List Segment) : (cache.getOrBuild bucket level build).cache.WellKept := by
  unfold getOrBuild
  cases entry : cache.get? bucket with
  | some segments => exact kept
  | none =>
    obtain ⟨roomy, room⟩ := wellKept_makeRoom kept
    obtain ⟨listed, same, held⟩ := wellKept_list roomy bucket.filter level build
    have fresh := not_mem_keys (get?_makeRoom entry)
    rw [← same] at fresh room
    refine ⟨listed.lists, List.nodup_cons.mpr ⟨fresh, listed.buckets⟩, ?_, room⟩
    intro e member
    rcases List.mem_cons.mp member with rfl | old
    · exact ⟨level, held⟩
    · exact listed.shared e old

/-! ### Runs of the builder -/

inductive Call where
  | get (bucket : Bucket)
  /-- The builder would give these segments. -/
  | request (bucket : Bucket) (level : Level) (segments : List Segment)
  | drop
deriving DecidableEq

def call (cache : RenderCache) : Call → RenderCache
  | .get _ => cache
  | .request bucket level segments => (cache.getOrBuild bucket level fun _ => segments).cache
  | .drop => {}

/-- The list that the builder is run for in a call. -/
def built? (cache : RenderCache) : Call → Option (Filter × Level)
  | .request bucket level segments =>
    if (cache.getOrBuild bucket level fun _ => segments).built then some (bucket.filter, level) else none
  | .get _ | .drop => none

def calls (cache : RenderCache) (cs : List Call) : RenderCache := cs.foldl call cache

/-- The runs of the builder, in order. -/
def builds (cache : RenderCache) : List Call → List (Filter × Level)
  | [] => []
  | c :: cs => (cache.built? c).toList ++ (cache.call c).builds cs

/-- A request is answered without the builder, whatever it would give, or else it runs the builder for a
list that the cache has not held until then and holds from then on. -/
theorem getOrBuild_cases (cache : RenderCache) (bucket : Bucket) (level : Level)
    (build : Unit → List Segment) :
    let found := cache.getOrBuild bucket level build
    (found.built = false ∧ (∀ other, cache.getOrBuild bucket level other = found) ∧
        found.cache.lists = cache.lists) ∨
      (found.built = true ∧ cache.lists.lookup (bucket.filter, level) = none ∧
        found.cache.lists = ((bucket.filter, level), build ()) :: cache.lists) := by
  have lists : cache.makeRoom.lists = cache.lists := by unfold makeRoom; split <;> rfl
  unfold getOrBuild
  cases cache.get? bucket with
  | some segments => exact Or.inl ⟨rfl, fun _ => rfl, rfl⟩
  | none =>
    unfold list
    rw [lists]
    cases cache.lists.lookup (bucket.filter, level) with
    | some segments => exact Or.inl ⟨rfl, fun _ => rfl, lists⟩
    | none => exact Or.inr ⟨rfl, rfl, rfl⟩

/-- What a call builds was not there, and short of a drop the keys of the lists grow by what is built. -/
theorem keys_call (cache : RenderCache) {c : Call} (keeps : c ≠ .drop) :
    ∀ key, key ∈ (cache.call c).lists.map Prod.fst ↔
      cache.built? c = some key ∨ key ∈ cache.lists.map Prod.fst := by
  intro key
  cases c with
  | get bucket => simp [call, built?]
  | drop => exact absurd rfl keeps
  | request bucket level segments =>
    rcases cache.getOrBuild_cases bucket level fun _ => segments with ⟨idle, _, lists⟩ | ⟨ran, _, lists⟩
    · simp [call, built?, idle, lists]
    · simp only [call, built?, ran, lists, ↓reduceIte, Option.some.injEq, List.map_cons, List.mem_cons]
      rw [eq_comm]

theorem built?_fresh {c : Call} {key : Filter × Level} (ran : cache.built? c = some key) :
    key ∉ cache.lists.map Prod.fst := by
  cases c with
  | get bucket | drop => cases ran
  | request bucket level segments =>
    rcases cache.getOrBuild_cases bucket level fun _ => segments with ⟨idle, _⟩ | ⟨run, absent, _⟩
    · simp [built?, idle] at ran
    · simp only [built?, run, ↓reduceIte, Option.some.injEq] at ran
      subst ran
      exact not_mem_keys absent

/-- Until the cache is dropped, a list is built at most once, and not at all if it is there already. -/
theorem builds_nodup (cache : RenderCache) {cs : List Call} (undropped : Call.drop ∉ cs) :
    (cache.builds cs).Nodup ∧ ∀ key ∈ cache.builds cs, key ∉ cache.lists.map Prod.fst := by
  induction cs generalizing cache with
  | nil => exact ⟨List.nodup_nil, fun _ member => (List.not_mem_nil member).elim⟩
  | cons c cs ih =>
    obtain ⟨first, later⟩ := not_or.mp (mt List.mem_cons.mpr undropped)
    obtain ⟨once, fresh⟩ := ih (cache.call c) later
    have grows := cache.keys_call (Ne.symm first)
    unfold builds
    cases ran : cache.built? c with
    | none =>
      refine ⟨once, ?_⟩
      intro key member held
      exact fresh key member ((grows key).mpr (Or.inr held))
    | some key =>
      have stored : key ∈ (cache.call c).lists.map Prod.fst := (grows key).mpr (Or.inl ran)
      refine ⟨List.nodup_cons.mpr ⟨fun again => fresh key again stored, once⟩, ?_⟩
      intro key' member held
      rcases List.mem_cons.mp member with rfl | after
      · exact built?_fresh ran held
      · exact fresh key' after ((grows key').mpr (Or.inr held))

end RenderCache

/-! ### Sessions -/

namespace Viewer

variable {v : Viewer}

theorem wellKept_act (kept : v.renders.WellKept) (a : Action) : (v.act a).renders.WellKept := by
  cases a with
  | start config => exact RenderCache.wellKept_empty
  | setConfig config =>
    simp only [act, setConfig]
    split
    · exact kept
    · exact RenderCache.wellKept_empty
  | load text =>
    simp only [act, load]
    split
    · exact RenderCache.wellKept_empty
    · exact kept
  | render camera filter => exact RenderCache.wellKept_getOrBuild kept _ _ _
  | clearDirty | place camera => exact kept
  | move m =>
    simp only [act]
    rw [moveCamera_eq]
    exact kept

theorem wellKept_foldl (kept : v.renders.WellKept) (actions : List Action) :
    (actions.foldl act v).renders.WellKept := by
  induction actions generalizing v with
  | nil => exact kept
  | cons a actions ih => exact ih (wellKept_act kept a)

theorem wellKept_session (config : Config) (actions : List Action) :
    (session config actions).renders.WellKept :=
  wellKept_foldl (v := ofConfig config) RenderCache.wellKept_empty actions

/-- At every point of a session, the lists are what the present document and settings give, the buckets
share them and fit in their table, and so whatever is drawn is of the present document and settings. Between
two drops the cache builds each list at most once, and when it does not build it has no use for the
builder. -/
theorem cache_holds_present (config : Config) (actions : List Action)
    (before between : List RenderCache.Call) (undropped : RenderCache.Call.drop ∉ between) :
    let v := session config actions
    (∀ filter level segments, ((filter, level), segments) ∈ v.renders.lists →
      segments = Detail.simplify v.config.detail (level.budget v.config.detail.pointBudget.toNat)
        (v.document.filtered filter)) ∧
    (∀ bucket segments, (bucket, segments) ∈ v.renders.buckets →
      ∃ level, ((bucket.filter, level), segments) ∈ v.renders.lists) ∧
    v.renders.buckets.length ≤ RenderCache.capacity ∧
    (∀ camera filter, ∃ level, (v.render camera filter).1 = v.simplified filter level) ∧
    ((RenderCache.calls {} before).builds between).Nodup ∧
    ∀ bucket level build,
      let found := (RenderCache.calls {} before).getOrBuild bucket level build
      found.built = true ∨ ∀ other, (RenderCache.calls {} before).getOrBuild bucket level other = found := by
  intro v
  have kept : v.renders.WellKept := wellKept_session config actions
  have faithful := faithful_session config actions
  refine ⟨?_, ?_, kept.bounded, ?_, (RenderCache.builds_nodup _ undropped).1, ?_⟩
  · intro filter level segments member
    exact faithful.lists _ member
  · intro bucket segments member
    exact kept.shared _ member
  · intro camera filter
    exact ⟨_, (render_of_faithful faithful camera filter).1⟩
  · intro bucket level build found
    rcases RenderCache.getOrBuild_cases _ bucket level build with ⟨_, unused, _⟩ | ⟨ran, _⟩
    · exact Or.inr unused
    · exact Or.inl ran

/-- The lists of a session that has drawn once, and one more bucket than the table takes: the table is
emptied for it, and the list is not built again. -/
theorem built_once_for_all_buckets :
    let line := [Action.load "G1 X1\nX2", .render {} .all]
    let tiles : List RenderCache.Call := (List.range 65).map fun i : Nat => .request ⟨.all, 0, i, 0⟩ .full []
    let v := session {} line
    (∃ segments, ((Filter.all, Level.full), segments) ∈ v.renders.lists ∧
      segments = Detail.simplify v.config.detail (Level.full.budget v.config.detail.pointBudget.toNat)
        (v.document.filtered .all)) ∧
    (RenderCache.calls {} tiles).buckets.length = 1 ∧
    ((RenderCache.calls {} [.drop]).builds tiles).Nodup ∧
    (RenderCache.calls {} [.drop]).builds tiles = [(.all, .full)] := by
  intro line tiles v
  obtain ⟨current, _, _, _, once, _⟩ := cache_holds_present {} line [.drop] tiles (by decide +kernel)
  have listed : ((Filter.all, Level.full), v.simplified .all .full) ∈ v.renders.lists := by
    have finest : Level.ofZoom (1 : Float32) = .full := by decide
    rw [← finest]
    exact List.mem_cons_self
  exact ⟨⟨_, listed, current _ _ _ listed⟩, by decide +kernel, once, by decide +kernel⟩

end Viewer

end Toolpath

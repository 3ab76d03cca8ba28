import Toolpath.Proofs.Storage.Save

/-!
# What a save changes

A save puts one file in place. Before that it makes directories, each where nothing was, and each on the way to the
file. All other places hold what they held.
-/

namespace Toolpath.Storage

variable {s t u : Storage} {l k m target : Location} {part : String} {parts : List String} {content : ByteArray}

theorem makeStep_changes (made : makeStep (s, some l) part = (t, some k)) (m : Location) :
    t.entry? m = s.entry? m ∨ m = k ∧ s.entry? m = none ∧ t.entry? m = some .directory := by
  obtain ⟨-, ⟨-, rfl⟩ | ⟨absent, rfl⟩⟩ := makeStep_cases made
  · exact Or.inl rfl
  · by_cases same : m = k
    · subst same
      exact Or.inr ⟨rfl, absent, entry?_put_self _ (not_isDirectory_of_none absent)⟩
    · exact Or.inl (entry?_put_of_ne s _ same)

/-- A place where nothing was, and where now a directory on the way is. -/
structure MadeOnWay (s t u : Storage) (l : Location) (parts : List String) (m : Location) : Prop where
  absent : s.entry? m = none
  made : t.entry? m = some .directory
  onWay : ∃ front, front <+: parts ∧ u.follow? l front = some m

theorem makeDirectories_changes (made : s.makeDirectories l parts = (t, some k)) (keeps : Keeps t u) (m : Location) :
    t.entry? m = s.entry? m ∨ MadeOnWay s t u l parts m := by
  induction parts generalizing s l with
  | nil =>
    cases made
    exact Or.inl rfl
  | cons part parts ih =>
    obtain ⟨s', next, first, rest⟩ := exists_step made
    obtain ⟨kept, step⟩ := makeStep_some first
    have later : Keeps s' t := (makeDirectories_some rest).1
    have again := ((kept.trans later).trans keeps).step? step
    obtain same | ⟨rfl, absent, here⟩ := makeStep_changes first m
    · obtain after | ⟨absent, here, front, inside, follows⟩ := ih rest
      · exact Or.inl (after.trans same)
      · refine Or.inr ⟨same ▸ absent, here, part :: front, (List.prefix_cons_inj part).mpr inside, ?_⟩
        rw [follow?_cons again]
        exact follows
    · -- The step has made a directory, which the later ones keep.
      have stays := isDirectory_iff.mp (later m (isDirectory_iff.mpr here))
      exact Or.inr ⟨absent, stays, [part], ⟨parts, rfl⟩, follow?_cons again⟩

/-- How a storage differs after a file was saved: the file is in place, and what else is new are parents of it
that were missing. -/
structure Saved (s t : Storage) (text : String) (content : ByteArray) (target : Location) : Prop where
  located : t.locate? text = some target
  written : t.entry? target = some (.file content)
  free : s.isDirectory target = false
  others : ∀ m, m ≠ target →
    t.entry? m = s.entry? m ∨ MadeOnWay s t t (start (Path.ofText text)) (Path.ofText text).parents m

theorem exists_saved {text : String} (saved : s.save text content = (t, true)) :
    ∃ target, Saved s t text content target := by
  obtain ⟨isPath, made, l, target, route, rfl⟩ := exists_route_of_save saved
  have keeps := route.keeps content
  refine ⟨target, route.locate isPath content, route.entry content, ?_, fun m differs => ?_⟩
  · have kept : Keeps s made := (makeDirectories_some route.parents).1
    exact Bool.eq_false_iff.mpr fun here => Bool.eq_false_iff.mp route.free (kept target here)
  · have same := entry?_put_of_ne made (.file content) differs
    obtain before | ⟨absent, here, onWay⟩ := makeDirectories_changes route.parents keeps m
    · exact Or.inl (same.trans before)
    · exact Or.inr ⟨absent, same.trans here, onWay⟩

end Toolpath.Storage

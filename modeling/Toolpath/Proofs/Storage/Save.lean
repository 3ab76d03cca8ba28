import Toolpath.Storage.Basic

/-!
# A saved file is read back

Making directories and putting a file where no directory is keep every directory. So the way that a file was
saved along can be followed again, and it ends at the file. Whether there is such a way depends on which files and
directories are there and not on what the files hold.
-/

namespace Toolpath

def Entry.isFile : Entry → Bool
  | .file _ => true
  | .directory => false

namespace Storage

variable {s t u : Storage} {l k target : Location} {part : String} {parts : List String} {content : ByteArray}

theorem isDirectory_iff : s.isDirectory l = true ↔ s.entry? l = some .directory := by
  unfold isDirectory
  split
  · next same => simp [same]
  · next other =>
    constructor
    · intro absurd
      cases absurd
    · intro same
      exact absurd same (other ·)

theorem entry?_of_isBase (s : Storage) (base : l.isBase = true) : s.entry? l = some .directory := by
  unfold entry?
  rw [if_pos base]

theorem entry?_put (s : Storage) (l k : Location) (e : Entry) :
    entry? (s.put l e) k = if k.isBase then some .directory else if k = l then some e else s.entry? k := by
  unfold entry? put
  split
  · rfl
  · rw [List.lookup_cons]
    by_cases same : k = l
    · rw [if_pos same, beq_iff_eq.mpr same]
    · rw [if_neg same, beq_eq_false_iff_ne.mpr same]

theorem entry?_put_of_ne (s : Storage) (e : Entry) (differs : k ≠ l) : entry? (s.put l e) k = s.entry? k := by
  rw [entry?_put, if_neg differs]
  split
  · next base => rw [entry?_of_isBase s base]
  · rfl

theorem not_isBase (free : s.isDirectory l = false) : l.isBase = false := by
  rw [Bool.eq_false_iff, Ne, isDirectory_iff] at free
  exact Bool.eq_false_iff.mpr fun base => free (entry?_of_isBase s base)

theorem entry?_put_self (e : Entry) (free : s.isDirectory l = false) : entry? (s.put l e) l = some e := by
  rw [entry?_put, not_isBase free, if_neg Bool.false_ne_true, if_pos rfl]

/-- Every directory of the first storage is one of the second. -/
def Keeps (s t : Storage) : Prop := ∀ l, s.isDirectory l = true → t.isDirectory l = true

theorem keeps_refl (s : Storage) : Keeps s s := fun _ here => here

theorem Keeps.trans (first : Keeps s t) (second : Keeps t u) : Keeps s u := fun l here => second l (first l here)

theorem keeps_put (s : Storage) {e : Entry} (free : s.isDirectory l = false) : Keeps s (s.put l e) := by
  intro k here
  have differs : k ≠ l := by
    rintro rfl
    rw [free] at here
    cases here
  rw [isDirectory_iff, entry?_put_of_ne s e differs]
  exact isDirectory_iff.mp here

theorem Keeps.step? (keeps : Keeps s t) (step : s.step? l part = some k) : t.step? l part = some k := by
  unfold Storage.step? at step ⊢
  cases here : s.isDirectory l with
  | false =>
    rw [here] at step
    cases step
  | true =>
    rw [here] at step
    rw [keeps l here]
    exact step

theorem not_isDirectory_of_none (absent : s.entry? l = none) : s.isDirectory l = false := by
  rw [Bool.eq_false_iff, Ne, isDirectory_iff, absent]
  nofun

/-- A step that has not failed ends at a directory, which it has made if nothing was there. -/
theorem makeStep_cases (made : makeStep (s, some l) part = (t, some k)) : s.step? l part = some k ∧
    (s.entry? k = some .directory ∧ t = s ∨ s.entry? k = none ∧ t = s.put k .directory) := by
  unfold makeStep at made
  dsimp only at made
  cases step : s.step? l part with
  | none =>
    rw [step] at made
    cases made
  | some next =>
    rw [step] at made
    dsimp only at made
    cases found : s.entry? next with
    | none =>
      rw [found] at made
      cases made
      exact ⟨rfl, Or.inr ⟨found, rfl⟩⟩
    | some e =>
      rw [found] at made
      cases e with
      | file _ => cases made
      | directory =>
        cases made
        exact ⟨rfl, Or.inl ⟨found, rfl⟩⟩

theorem makeStep_some (made : makeStep (s, some l) part = (t, some k)) : Keeps s t ∧ s.step? l part = some k := by
  obtain ⟨step, ⟨-, rfl⟩ | ⟨absent, rfl⟩⟩ := makeStep_cases made
  · exact ⟨keeps_refl t, step⟩
  · exact ⟨keeps_put s (not_isDirectory_of_none absent), step⟩

theorem makeDirectories_none (s : Storage) (parts : List String) :
    parts.foldl makeStep (s, none) = (s, none) := by
  induction parts with
  | nil => rfl
  | cons part parts ih => exact ih

theorem exists_step (made : s.makeDirectories l (part :: parts) = (t, some k)) :
    ∃ u next, makeStep (s, some l) part = (u, some next) ∧ u.makeDirectories next parts = (t, some k) := by
  unfold makeDirectories at made
  rw [List.foldl_cons] at made
  cases first : makeStep (s, some l) part with
  | mk u found =>
    rw [first] at made
    cases found with
    | none =>
      rw [makeDirectories_none] at made
      cases made
    | some next => exact ⟨u, next, rfl, made⟩

theorem follow?_cons {more : List String} (step : s.step? l part = some k) :
    s.follow? l (part :: more) = s.follow? k more := by
  unfold follow?
  rw [List.foldlM_cons, step]
  rfl

/-- The directories that were made can be followed, also after more has been added. -/
theorem makeDirectories_some (made : s.makeDirectories l parts = (t, some k)) :
    Keeps s t ∧ ∀ u, Keeps t u → u.follow? l parts = some k := by
  induction parts generalizing s l with
  | nil =>
    cases made
    exact ⟨keeps_refl _, fun _ _ => rfl⟩
  | cons part parts ih =>
    obtain ⟨s', next, first, rest⟩ := exists_step made
    obtain ⟨kept, step⟩ := makeStep_some first
    obtain ⟨later, follows⟩ := ih rest
    refine ⟨kept.trans later, fun u keeps => ?_⟩
    rw [follow?_cons (((kept.trans later).trans keeps).step? step)]
    exact follows u keeps

theorem putFile?_some {name : String} (put : s.putFile? l name content = some t) :
    ∃ target, s.step? l name = some target ∧ s.isDirectory target = false ∧ t = s.put target (.file content) := by
  unfold putFile? at put
  cases step : s.step? l name with
  | none =>
    rw [step] at put
    cases put
  | some target =>
    rw [step] at put
    dsimp only at put
    split at put
    · cases put
    · next free =>
      cases put
      exact ⟨target, rfl, by simpa using free, rfl⟩

theorem follow?_append {more : List String} (first : s.follow? l parts = some k) :
    s.follow? l (parts ++ more) = s.follow? k more := by
  unfold follow? at first ⊢
  rw [List.foldlM_append, first]
  rfl

theorem parts_eq {p : Path} {name : String} (named : p.fileName? = some name) : p.parts = p.parents ++ [name] := by
  obtain ⟨front, same⟩ := List.getLast?_eq_some_iff.mp (Option.filter_eq_some_iff.mp named).1
  unfold Path.parents
  rw [same, List.dropLast_concat]

/-- What a path leads through while a file is saved there: the storage with its parents made, the directory of the
file, and the place of the file. -/
structure Route (s : Storage) (p : Path) (made : Storage) (l target : Location) : Prop where
  parents : s.makeDirectories (start p) p.parents = (made, some l)
  named : ∃ name, p.fileName? = some name ∧ made.step? l name = some target
  closed : p.endsOpen = false
  free : made.isDirectory target = false

theorem exists_route {p : Path} (saved : s.savePath p content = (t, true)) :
    ∃ made l target, Route s p made l target ∧ t = made.put target (.file content) := by
  unfold savePath at saved
  cases parents : s.makeDirectories (start p) p.parents with
  | mk made found =>
    cases found with
    | none =>
      rw [parents] at saved
      cases saved
    | some l =>
      cases named : p.fileName? with
      | none =>
        rw [parents, named] at saved
        cases saved
      | some name =>
        rw [parents, named] at saved
        dsimp only at saved
        split at saved
        · cases saved
        · next closed =>
          split at saved
          · next put =>
            cases saved
            obtain ⟨target, step, free, rfl⟩ := putFile?_some put
            exact ⟨made, l, target, ⟨parents, ⟨name, named, step⟩, by simpa using closed, free⟩, rfl⟩
          · cases saved

theorem Route.keeps {p : Path} {made : Storage} (route : Route s p made l target) (content : ByteArray) :
    Keeps made (made.put target (.file content)) := keeps_put made route.free

theorem Route.entry {p : Path} {made : Storage} (route : Route s p made l target) (content : ByteArray) :
    entry? (made.put target (.file content)) target = some (.file content) := entry?_put_self _ route.free

/-- The way to a saved file can be followed again. -/
theorem Route.locate {text : String} {made : Storage} (route : Route s (Path.ofText text) made l target)
    (isPath : isPath text = true) (content : ByteArray) :
    (made.put target (.file content)).locate? text = some target := by
  obtain ⟨name, named, step⟩ := route.named
  have keeps := route.keeps content
  have follows : (made.put target (.file content)).follow? (start (Path.ofText text)) (Path.ofText text).parts =
      some target := by
    rw [parts_eq named, follow?_append ((makeDirectories_some route.parents).2 _ keeps),
      follow?_cons (keeps.step? step)]
    rfl
  unfold locate?
  dsimp only
  rw [if_pos isPath, follows, route.closed, Option.filter_some, Bool.not_false, Bool.true_or, if_pos rfl]

theorem exists_route_of_save {text : String} (saved : s.save text content = (t, true)) : isPath text = true ∧
    ∃ made l target, Route s (Path.ofText text) made l target ∧ t = made.put target (.file content) := by
  unfold save at saved
  split at saved
  · next isPath => exact ⟨isPath, exists_route saved⟩
  · cases saved

theorem read?_save {text : String} (saved : s.save text content = (t, true)) : t.read? text = some content := by
  obtain ⟨isPath, made, l, target, route, rfl⟩ := exists_route_of_save saved
  unfold read? find?
  rw [route.locate isPath, Option.bind_some, route.entry]

/-- A text that was saved is what the file holds. -/
theorem readText?_save {path text : String} (saved : s.save path text.toUTF8 = (t, true)) :
    t.readText? path = some text := by
  unfold readText?
  rw [read?_save saved, Option.bind_some, String.toUTF8_eq_toByteArray]
  exact dif_pos text.isValidUTF8

/-! ### What a save depends on -/

/-- Whether something is there, and whether that is a file. -/
def kind? (s : Storage) (l : Location) : Option Bool := s.entry? l |>.map Entry.isFile

/-- The same files and directories are there. What the files hold may differ. -/
def Alike (s u : Storage) : Prop := ∀ l, s.kind? l = u.kind? l

theorem alike_refl (s : Storage) : Alike s s := fun _ => rfl

theorem Alike.entry_cases (alike : Alike s u) (l : Location) : s.entry? l = none ∧ u.entry? l = none ∨
    (∃ first second, s.entry? l = some (.file first) ∧ u.entry? l = some (.file second)) ∨
    s.entry? l = some .directory ∧ u.entry? l = some .directory := by
  have kind := alike l
  unfold kind? at kind
  generalize s.entry? l = left at *
  generalize u.entry? l = right at *
  rcases left with _ | first | _ <;> rcases right with _ | second | _ <;> cases kind
  · exact Or.inl ⟨rfl, rfl⟩
  · exact Or.inr (Or.inl ⟨first, second, rfl, rfl⟩)
  · exact Or.inr (Or.inr ⟨rfl, rfl⟩)

theorem Alike.isDirectory (alike : Alike s u) (l : Location) : s.isDirectory l = u.isDirectory l := by
  unfold Storage.isDirectory
  obtain ⟨left, right⟩ | ⟨first, second, left, right⟩ | ⟨left, right⟩ := alike.entry_cases l <;> rw [left, right]

theorem Alike.step? (alike : Alike s u) (l : Location) (part : String) : s.step? l part = u.step? l part := by
  unfold Storage.step?
  rw [alike.isDirectory]

theorem Alike.put (alike : Alike s u) (l : Location) {d e : Entry} (same : d.isFile = e.isFile) :
    Alike (s.put l d) (u.put l e) := by
  intro k
  unfold kind?
  rw [entry?_put, entry?_put]
  split
  · rfl
  · split
    · exact congrArg some same
    · exact alike k

/-- Alike storages, and the same place on the way through them. -/
structure Abreast (x y : Storage × Option Location) : Prop where
  alike : Alike x.1 y.1
  place : x.2 = y.2

theorem Abreast.makeStep {x y : Storage × Option Location} (abreast : Abreast x y) (part : String) :
    Abreast (makeStep x part) (makeStep y part) := by
  obtain ⟨s, found⟩ := x
  obtain ⟨u, _⟩ := y
  obtain ⟨alike, rfl⟩ := abreast
  cases found with
  | none => exact ⟨alike, rfl⟩
  | some l =>
    unfold Storage.makeStep
    dsimp only
    rw [alike.step?]
    cases u.step? l part with
    | none => exact ⟨alike, rfl⟩
    | some next =>
      dsimp only
      obtain ⟨left, right⟩ | ⟨first, second, left, right⟩ | ⟨left, right⟩ := alike.entry_cases next
      · rw [left, right]
        exact ⟨alike.put next rfl, rfl⟩
      · rw [left, right]
        exact ⟨alike, rfl⟩
      · rw [left, right]
        exact ⟨alike, rfl⟩

theorem Abreast.foldl {x y : Storage × Option Location} (abreast : Abreast x y) (parts : List String) :
    Abreast (parts.foldl Storage.makeStep x) (parts.foldl Storage.makeStep y) := by
  induction parts generalizing x y with
  | nil => exact abreast
  | cons part parts step => exact step (abreast.makeStep part)

theorem Alike.putFile? (alike : Alike s u) (l : Location) (name : String) (first second : ByteArray) :
    (s.putFile? l name first).isSome = (u.putFile? l name second).isSome := by
  unfold Storage.putFile?
  rw [alike.step?]
  cases u.step? l name with
  | none => rfl
  | some target =>
    dsimp only
    rw [alike.isDirectory]
    split <;> rfl

theorem Alike.savePath (alike : Alike s u) (p : Path) (first second : ByteArray) :
    (s.savePath p first).2 = (u.savePath p second).2 := by
  have begin : Abreast (s, some (start p)) (u, some (start p)) := ⟨alike, rfl⟩
  have abreast : Abreast (s.makeDirectories (start p) p.parents) (u.makeDirectories (start p) p.parents) :=
    begin.foldl p.parents
  unfold Storage.savePath
  generalize s.makeDirectories (start p) p.parents = left at *
  generalize u.makeDirectories (start p) p.parents = right at *
  obtain ⟨s', found⟩ := left
  obtain ⟨u', _⟩ := right
  obtain ⟨after, rfl⟩ := abreast
  cases found with
  | none => rfl
  | some l =>
    cases p.fileName? with
    | none => rfl
    | some name =>
      have either := Alike.putFile? after l name first second
      dsimp only at either ⊢
      split
      · rfl
      · cases one : s'.putFile? l name first <;> cases two : u'.putFile? l name second
        all_goals first
          | rfl
          | rw [one, two] at either; cases either

/-- Whether a file can be saved does not depend on what it holds, nor on what other files do. -/
theorem Alike.save (alike : Alike s u) (text : String) (first second : ByteArray) :
    (s.save text first).2 = (u.save text second).2 := by
  unfold Storage.save
  split
  · exact alike.savePath _ first second
  · rfl

theorem save_any_content (s : Storage) (text : String) (first second : ByteArray) :
    (s.save text first).2 = (s.save text second).2 := (alike_refl s).save text first second

end Storage

end Toolpath

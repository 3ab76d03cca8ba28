import Mathlib.Data.List.Forall2
import Mathlib.Data.Option.Basic

/-!
# Values under names

Two lists stand for each other name by name. What is looked up in the one then stands for what is looked up in
the other.
-/

namespace Toolpath

variable {α β : Type} {R : α → β → Prop} {as : List (String × α)} {bs : List (String × β)}

/-- The same names in the same order, with related values. -/
def ByName (R : α → β → Prop) (as : List (String × α)) (bs : List (String × β)) : Prop :=
  List.Forall₂ (fun a b => a.1 = b.1 ∧ R a.2 b.2) as bs

theorem lookup_of_mem (distinct : (as.map Prod.fst).Nodup) {a : String × α} (member : a ∈ as) :
    as.lookup a.1 = some a.2 := by
  induction as with
  | nil => cases member
  | cons b as ih =>
    rw [List.map_cons, List.nodup_cons] at distinct
    rcases List.mem_cons.mp member with rfl | later
    · exact List.lookup_cons_self
    · have differs : a.1 ≠ b.1 := fun same => distinct.1 (same ▸ List.mem_map_of_mem later)
      rw [List.lookup_cons, beq_eq_false_iff_ne.mpr differs]
      exact ih distinct.2 later

namespace ByName

theorem names (pairs : ByName R as bs) : as.map Prod.fst = bs.map Prod.fst := by
  unfold ByName at pairs
  induction pairs with
  | nil => rfl
  | cons here _ ih => rw [List.map_cons, List.map_cons, ih, here.1]

theorem lookup (pairs : ByName R as bs) (name : String) : Option.Rel R (as.lookup name) (bs.lookup name) := by
  unfold ByName at pairs
  induction pairs with
  | nil => exact .none
  | @cons a b _ _ here _ ih =>
    obtain ⟨key, x⟩ := a
    obtain ⟨other, y⟩ := b
    obtain ⟨same, related⟩ := here
    change key = other at same
    subst same
    rw [List.lookup_cons, List.lookup_cons]
    cases name == key with
    | true => exact .some related
    | false => exact ih

theorem map {f : α → β} (related : ∀ a ∈ as, R a.2 (f a.2)) : ByName R as (as.map fun (name, a) => (name, f a)) :=
  List.forall₂_map_right_iff.mpr (List.forall₂_same.mpr fun a member => ⟨rfl, related a member⟩)

theorem map_right {γ : Type} {T : α → γ → Prop} {f : β → γ} (pairs : ByName R as bs)
    (related : ∀ a ∈ as, ∀ b, R a.2 b → T a.2 (f b)) : ByName T as (bs.map fun b => (b.1, f b.2)) := by
  unfold ByName at pairs ⊢
  induction pairs with
  | nil => exact .nil
  | @cons a b _ _ here _ ih =>
    exact .cons ⟨here.1, related a List.mem_cons_self b.2 here.2⟩
      (ih fun d member => related d (List.mem_cons_of_mem a member))

theorem exists_left (pairs : ByName R as bs) {b : String × β} (member : b ∈ bs) : ∃ a ∈ as, a.1 = b.1 ∧ R a.2 b.2 := by
  unfold ByName at pairs
  induction pairs with
  | nil => cases member
  | @cons a _ _ _ here _ ih =>
    rcases List.mem_cons.mp member with rfl | later
    · exact ⟨a, List.mem_cons_self, here⟩
    · obtain ⟨d, known, related⟩ := ih later
      exact ⟨d, List.mem_cons_of_mem a known, related⟩

theorem exists_right (pairs : ByName R as bs) {a : String × α} (member : a ∈ as) : ∃ b ∈ bs, a.1 = b.1 ∧ R a.2 b.2 := by
  obtain ⟨b, known, same, related⟩ := exists_left (R := fun y x => R x y)
    ((List.Forall₂.flip pairs).imp fun _ _ here => ⟨here.1.symm, here.2⟩) member
  exact ⟨b, known, same.symm, related⟩

end ByName

end Toolpath

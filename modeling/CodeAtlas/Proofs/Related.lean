import Mathlib.Data.List.Forall2
import Mathlib.Data.Option.Basic

/-!
# Lists related member by member

Two lists are related when their members are, one by one.  What is found in related lists by going
through them in the same way is then related too: both searches find nothing, or they find related
members.
-/

namespace CodeAtlas
namespace Related

variable {α β : Type} {r : α → β → Prop} {as : List α} {bs : List β}

theorem exists_of_mem (h : List.Forall₂ r as bs) {b : β} (hb : b ∈ bs) : ∃ a ∈ as, r a b := by
  induction h with
  | nil => exact absurd hb (by simp)
  | @cons a b' as bs hab _ ih =>
      rcases List.mem_cons.mp hb with rfl | hb
      · exact ⟨a, List.mem_cons_self, hab⟩
      · obtain ⟨a', ha', hr⟩ := ih hb
        exact ⟨a', List.mem_cons_of_mem a ha', hr⟩

/-- What related members agree on, related lists agree on. -/
theorem map_eq_map {γ : Type} {f : α → γ} {g : β → γ} (hfg : ∀ a b, r a b → f a = g b)
    (h : List.Forall₂ r as bs) : as.map f = bs.map g := by
  rw [← List.forall₂_eq_eq_eq, List.forall₂_map_left_iff, List.forall₂_map_right_iff]
  exact h.imp hfg

theorem map_right (f : α → β) (as : List α) :
    List.Forall₂ (fun a b => b = f a) as (as.map f) :=
  List.forall₂_map_right_iff.mpr (List.forall₂_same.mpr fun _ _ => rfl)

theorem isEmpty_eq (h : List.Forall₂ r as bs) : as.isEmpty = bs.isEmpty := by
  cases h <;> rfl

/-! ## What is found -/

theorem none_or_some {o : Option α} {o' : Option β} (h : Option.Rel r o o') :
    (o = none ∧ o' = none) ∨ ∃ a b, o = some a ∧ o' = some b ∧ r a b := by
  cases h with
  | none => exact Or.inl ⟨rfl, rfl⟩
  | some hab => exact Or.inr ⟨_, _, rfl, rfl, hab⟩

theorem eq_map_of_rel {f : α → β} {o : Option α} {o' : Option β}
    (h : Option.Rel (fun a b => b = f a) o o') : o' = o.map f := by
  obtain ⟨rfl, rfl⟩ | ⟨a, _, rfl, rfl, rfl⟩ := none_or_some h
  · rfl
  · rfl

theorem head? (h : List.Forall₂ r as bs) : Option.Rel r as.head? bs.head? := by
  cases h with
  | nil => exact .none
  | cons hab _ => exact .some hab

theorem find? {p : α → Bool} {q : β → Bool} (hpq : ∀ a b, r a b → p a = q b)
    (h : List.Forall₂ r as bs) : Option.Rel r (as.find? p) (bs.find? q) := by
  induction h with
  | nil => exact .none
  | @cons a b as bs hab _ ih =>
      rw [List.find?_cons, List.find?_cons, hpq a b hab]
      cases q b with
      | true => exact .some hab
      | false => exact ih

theorem findSome? {α' β' : Type} {s : α' → β' → Prop} {f : α → Option α'} {g : β → Option β'}
    (hfg : ∀ a b, r a b → Option.Rel s (f a) (g b)) (h : List.Forall₂ r as bs) :
    Option.Rel s (as.findSome? f) (bs.findSome? g) := by
  induction h with
  | nil => exact .none
  | @cons a b as bs hab _ ih =>
      rw [List.findSome?_cons, List.findSome?_cons]
      obtain ⟨hnone, hnone'⟩ | ⟨c, d, hsome, hsome', hcd⟩ := none_or_some (hfg a b hab)
      · rw [hnone, hnone']
        exact ih
      · rw [hsome, hsome']
        exact .some hcd

end Related
end CodeAtlas

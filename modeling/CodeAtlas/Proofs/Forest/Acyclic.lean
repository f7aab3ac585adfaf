import CodeAtlas.Proofs.Forest.Descent
import Mathlib.Logic.Relation

/-!
# Forests without cycles

The lists of children of a forest may share members, and need not agree with the parents.  As long
as going down never leads back, the indices that can be reached get fewer at every step, and the
listing of what is below an index is complete.  It is then what a walk with a stack meets: the walk
takes an index off the stack, lists it and puts its children there, until nothing is left.
-/

namespace CodeAtlas
namespace Forest

variable {f : Forest} {level : Nat → Nat} {i c : Nat}

/-- The index `c` is listed as a child of `i`. -/
def IsChild (f : Forest) (i c : Nat) : Prop := c ∈ f.children i

/-- Going down from an index never leads back to it. -/
def Acyclic (f : Forest) : Prop := ∀ i, ¬ Relation.TransGen f.IsChild i i

theorem Falls.lt_of_transGen (h : f.Falls level) (hdown : Relation.TransGen f.IsChild i c) :
    level c < level i := by
  induction hdown with
  | single hc => exact h i _ hc
  | tail _ hc ih => exact (h _ _ hc).trans ih

theorem Falls.acyclic (h : f.Falls level) : f.Acyclic :=
  fun _ hcycle => lt_irrefl _ (h.lt_of_transGen hcycle)

open Classical in
/-- The number of indices that going down from an index reaches, itself included. -/
noncomputable def reach (f : Forest) (i : Nat) : Nat :=
  ((Finset.range f.size).filter fun j => Relation.ReflTransGen f.IsChild i j).card

theorem reach_le_size (f : Forest) (i : Nat) : f.reach i ≤ f.size := by
  classical
  have h := Finset.card_filter_le (Finset.range f.size) fun j =>
    Relation.ReflTransGen f.IsChild i j
  rwa [Finset.card_range] at h

namespace Acyclic

/-- An index reaches all that its children reach, and itself, which they do not reach. -/
theorem falls_reach (h : f.Acyclic) : f.Falls f.reach := by
  classical
  intro i c hc
  apply Finset.card_lt_card
  rw [Finset.ssubset_iff_of_subset]
  · refine ⟨i, ?_, ?_⟩
    · exact Finset.mem_filter.mpr ⟨Finset.mem_range.mpr (lt_size_of_mem_children hc), .refl⟩
    · intro hmem
      exact h i (Relation.TransGen.head' hc (Finset.mem_filter.mp hmem).2)
  · intro j hj
    rw [Finset.mem_filter] at hj ⊢
    exact ⟨hj.1, hj.2.head hc⟩

theorem descendants_eq (h : f.Acyclic) (i : Nat) :
    f.descendants i = (f.children i).flatMap fun c => c :: f.descendants c :=
  h.falls_reach.descendants_eq f.reach_le_size i

end Acyclic

/-! ## Walks -/

/-- The walk that starts with a stack of indices comes to an end, and lists these indices. -/
inductive Walks (f : Forest) : List Nat → List Nat → Prop
  | done : Walks f [] []
  | visit {i : Nat} {stack listed : List Nat} :
      Walks f (f.children i ++ stack) listed → Walks f (i :: stack) (i :: listed)

/-- What is below indices comes before what the walk lists for the rest of the stack. -/
theorem Walks.append (is : List Nat) {stack listed : List Nat}
    (his : ∀ i ∈ is, ∀ stack listed, f.Walks stack listed →
      f.Walks (i :: stack) (i :: f.descendants i ++ listed))
    (h : f.Walks stack listed) :
    f.Walks (is ++ stack) ((is.flatMap fun i => i :: f.descendants i) ++ listed) := by
  induction is with
  | nil => exact h
  | cons i is ih =>
      rw [List.forall_mem_cons] at his
      rw [List.flatMap_cons, List.append_assoc]
      exact his.1 _ _ (ih his.2)

namespace Acyclic

theorem walks_cons (h : f.Acyclic) (i : Nat) :
    ∀ stack listed, f.Walks stack listed →
      f.Walks (i :: stack) (i :: f.descendants i ++ listed) := by
  induction i using h.falls_reach.descend with
  | step i ih =>
      intro stack listed hrest
      rw [h.descendants_eq i, List.cons_append]
      exact .visit (.append _ ih hrest)

/-- The walk that starts with the children of an index lists what is below it. -/
theorem walks_descendants (h : f.Acyclic) (i : Nat) : f.Walks (f.children i) (f.descendants i) := by
  have hwalk := Walks.append (f.children i) (fun c _ => h.walks_cons c) .done
  rwa [List.append_nil, List.append_nil, ← h.descendants_eq i] at hwalk

end Acyclic
end Forest
end CodeAtlas

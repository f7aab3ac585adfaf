import Mathlib.Data.List.Sort

/-!
# Stable sorting

Lists are sorted by merging, which is stable: members that are equal for the order stay as they
stood.  So it gives the same list as insertion, which unlike merging goes through a list member by
member, and a list that is sorted from behind keeps equal members the other way round.
-/

namespace CodeAtlas
namespace Sorting

variable {α : Type} {le : α → α → Bool} {a : α}

theorem orderedInsert_append {before after : List α} (hbefore : ∀ b ∈ before, le a b = false)
    (hafter : ∀ b ∈ after, le a b = true) :
    (before ++ after).orderedInsert (fun a b => le a b = true) a = before ++ a :: after := by
  induction before with
  | nil =>
      cases after with
      | nil => rfl
      | cons b after =>
          rw [List.nil_append, List.orderedInsert_cons, if_pos (hafter b List.mem_cons_self)]
          rfl
  | cons b before ih =>
      have hb : ¬ le a b = true := by simp [hbefore b List.mem_cons_self]
      rw [List.cons_append, List.orderedInsert_cons, if_neg hb,
        ih fun c hc => hbefore c (List.mem_cons_of_mem b hc)]
      rfl

/-- Merging sorts like insertion. -/
theorem mergeSort_eq_insertionSort (htrans : ∀ a b c, le a b = true → le b c = true → le a c = true)
    (htotal : ∀ a b, (le a b || le b a) = true) (l : List α) :
    l.mergeSort le = l.insertionSort (fun a b => le a b = true) := by
  induction l with
  | nil => rw [List.mergeSort_nil, List.insertionSort_nil]
  | cons a l ih =>
      obtain ⟨before, after, hcons, htail, hbefore⟩ := List.mergeSort_cons htrans htotal a l
      have hsorted := List.pairwise_mergeSort htrans htotal (a :: l)
      rw [hcons, List.pairwise_append] at hsorted
      rw [List.insertionSort_cons, ← ih, htail, hcons, orderedInsert_append]
      · intro b hb
        simpa using hbefore b hb
      · intro b hb
        exact List.rel_of_pairwise_cons hsorted.2.1 hb

variable (key : α → Nat)

theorem key_trans (a b c : α) (hab : decide (key a ≤ key b) = true)
    (hbc : decide (key b ≤ key c) = true) : decide (key a ≤ key c) = true := by
  rw [decide_eq_true_eq] at hab hbc ⊢
  exact Nat.le_trans hab hbc

theorem key_total (a b : α) : (decide (key a ≤ key b) || decide (key b ≤ key a)) = true := by
  rw [Bool.or_eq_true, decide_eq_true_eq, decide_eq_true_eq]
  exact Nat.le_total (key a) (key b)

theorem mergeSort_key (l : List α) : (l.mergeSort fun a b => key a ≤ key b) =
    l.insertionSort (fun a b => decide (key a ≤ key b) = true) :=
  mergeSort_eq_insertionSort (key_trans key) (key_total key) l

/-- Members with one key keep their order. -/
theorem filter_mergeSort_key (n : Nat) (l : List α) :
    (l.mergeSort fun a b => key a ≤ key b).filter (key · == n) = l.filter (key · == n) := by
  symm
  apply List.Sublist.eq_of_length
  · have hkept : (l.filter (key · == n)).Sublist (l.mergeSort fun a b => key a ≤ key b) := by
      refine List.sublist_mergeSort (key_trans key) (key_total key) ?_ List.filter_sublist
      refine List.Pairwise.imp_of_mem ?_ (List.pairwise_of_forall fun _ _ => trivial)
      intro x y hx hy _
      have hx' : key x = n := by simpa using (List.mem_filter.mp hx).2
      have hy' : key y = n := by simpa using (List.mem_filter.mp hy).2
      simp [hx', hy']
    simpa only [List.filter_filter, Bool.and_self] using hkept.filter (key · == n)
  · exact ((List.mergeSort_perm _ _).filter _).length_eq.symm

/-- Sorting a list from behind puts smaller keys first, and of equal ones the one further behind. -/
theorem pairwise_mergeSort_reverse {r : α → α → Prop} {l : List α} (hl : l.Pairwise r) :
    (l.reverse.mergeSort fun a b => key a ≤ key b).Pairwise
      fun a b => key a < key b ∨ key a = key b ∧ r b a := by
  have hsorted := List.pairwise_mergeSort (key_trans key) (key_total key) l.reverse
  have hreverse := List.pairwise_reverse.mpr hl
  rw [List.pairwise_iff_forall_sublist] at hsorted hreverse ⊢
  intro a b hab
  by_cases heq : key a = key b
  · refine Or.inr ⟨heq, hreverse ?_⟩
    have hpair : [a, b].Sublist (l.reverse.filter (key · == key b)) := by
      rw [← filter_mergeSort_key key (key b) l.reverse]
      simpa [heq] using hab.filter (key · == key b)
    exact hpair.trans List.filter_sublist
  · have hle : key a ≤ key b := of_decide_eq_true (hsorted hab)
    exact Or.inl (Nat.lt_of_le_of_ne hle heq)

end Sorting
end CodeAtlas

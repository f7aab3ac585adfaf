import CodeAtlas.Proofs.Forest.Edits
import Mathlib.Data.Finset.Card

/-!
# Degrees never fall short

Nothing keeps an edge from being added twice, a child from being put under several parents, or an
index from being put under itself, and entities may come with any degrees.  Then degrees no longer
count children and parents, and an index is no longer listed under its parent only.  But they still
cover the edges: every attached edge raises two degrees, and taking a child away lowers each of them
by one while all its copies go.  So a degree that is lowered is never zero.  This is about degrees as
natural numbers, which do not wrap around when they are raised.
-/

namespace CodeAtlas
namespace Forest

variable {f : Forest} {i j p c : Nat}

/-! ## Where an index is listed -/

/-- The indices that list an index among their children. -/
def holders (f : Forest) (c : Nat) : Finset Nat :=
  (Finset.range f.size).filter fun p => c ∈ f.children p

theorem mem_holders : p ∈ f.holders c ↔ c ∈ f.children p := by
  rw [holders, Finset.mem_filter, Finset.mem_range, and_iff_right_iff_imp]
  exact lt_size_of_mem_children

theorem holders_eq_of_children {g : Forest} (h : ∀ p, g.children p = f.children p) (c : Nat) :
    g.holders c = f.holders c := by
  ext p
  rw [mem_holders, mem_holders, h]

theorem holders_attach (hp : p < f.size) :
    (f.attach p c).holders j = if j = c then insert p (f.holders j) else f.holders j := by
  ext q
  rw [mem_holders, children_attach hp]
  by_cases hj : j = c <;> by_cases hq : q = p <;> simp [hj, hq, mem_holders]

theorem holders_detach (h : c ∈ f.children p) :
    (f.detach p c).holders j = if j = c then (f.holders j).erase p else f.holders j := by
  ext q
  rw [mem_holders, children_detach h]
  by_cases hj : j = c <;> by_cases hq : q = p <;> simp [hj, hq, mem_holders]

theorem toFinset_children_attach (hp : p < f.size) :
    ((f.attach p c).children j).toFinset =
      if j = p then insert c (f.children j).toFinset else (f.children j).toFinset := by
  rw [children_attach hp]
  split
  · rw [List.toFinset_append, List.toFinset_cons, List.toFinset_nil, Finset.union_insert,
      Finset.union_empty]
  · rfl

theorem toFinset_children_detach (h : c ∈ f.children p) :
    ((f.detach p c).children j).toFinset =
      if j = p then (f.children j).toFinset.erase c else (f.children j).toFinset := by
  rw [children_detach h]
  split
  · ext d
    simp [and_comm]
  · rfl

/-! ## Covered edges -/

/-- Children are indices of the forest, and the degrees of an entity are not below the number of its
children and of the indices that list it. -/
structure Covered (f : Forest) : Prop where
  child_lt : ∀ p, ∀ c ∈ f.children p, c < f.size
  inDegree : ∀ i e, f.entity? i = some e → (f.children i).toFinset.card ≤ e.inDegree
  outDegree : ∀ i e, f.entity? i = some e → (f.holders i).card ≤ e.outDegree

namespace Covered

theorem empty : Covered Forest.empty where
  child_lt := by simp [Forest.empty, children, cell?]
  inDegree := by simp [Forest.empty, entity?, cell?]
  outDegree := by simp [Forest.empty, entity?, cell?]

/-- Any entity can be added, as no edge leads to it yet. -/
theorem push (h : f.Covered) (e : Entity) : (f.push e).Covered where
  child_lt p c hc := by
    rw [children_push] at hc
    have := h.child_lt p c hc
    simp only [size, Forest.push, List.length_append, List.length_singleton] at *
    omega
  inDegree j e' he := by
    rw [entity?_push] at he
    rw [children_push]
    split at he
    next hj =>
      have hnone : f.cell? j = none := cell?_eq_none_iff.mpr (Nat.le_of_eq hj.symm)
      simp [children, hnone]
    next => exact h.inDegree j e' he
  outDegree j e' he := by
    rw [entity?_push] at he
    rw [holders_eq_of_children fun p => children_push f e p]
    split at he
    next hj =>
      have hnone : f.holders j = ∅ := by
        rw [Finset.eq_empty_iff_forall_notMem]
        intro p hp
        have := h.child_lt p j (mem_holders.mp hp)
        omega
      simp [hnone]
    next => exact h.outDegree j e' he

/-- A change that leaves the degrees alone does not matter. -/
theorem modify (h : f.Covered) {g : Entity → Entity}
    (hin : ∀ e, (g e).inDegree = e.inDegree) (hout : ∀ e, (g e).outDegree = e.outDegree) :
    (f.modify i g).Covered where
  child_lt p c hc := by
    rw [children_modify] at hc
    rw [size_modify]
    exact h.child_lt p c hc
  inDegree j e' he := by
    rw [entity?_modify] at he
    obtain ⟨e, hsome, rfl⟩ := Option.map_eq_some_iff.mp he
    have hold := h.inDegree j e hsome
    rw [children_modify]
    split <;> simpa [hin] using hold
  outDegree j e' he := by
    rw [entity?_modify] at he
    obtain ⟨e, hsome, rfl⟩ := Option.map_eq_some_iff.mp he
    have hold := h.outDegree j e hsome
    rw [holders_eq_of_children fun p => children_modify f i p g]
    split <;> simpa [hout] using hold

theorem attach (h : f.Covered) (hp : p < f.size) (hc : c < f.size) : (f.attach p c).Covered where
  child_lt q d hd := by
    rw [children_attach hp] at hd
    rw [size_attach]
    split at hd
    · rcases List.mem_append.mp hd with hd | hd
      · exact h.child_lt q d hd
      · rw [List.mem_singleton.mp hd]
        exact hc
    · exact h.child_lt q d hd
  inDegree j e' he := by
    rw [entity?_attach] at he
    obtain ⟨e, hsome, rfl⟩ := Option.map_eq_some_iff.mp he
    have hold := h.inDegree j e hsome
    rw [toFinset_children_attach hp]
    split
    · exact (Finset.card_insert_le _ _).trans (Nat.succ_le_succ hold)
    · exact hold
  outDegree j e' he := by
    rw [entity?_attach] at he
    obtain ⟨e, hsome, rfl⟩ := Option.map_eq_some_iff.mp he
    have hold := h.outDegree j e hsome
    rw [holders_attach hp]
    split
    · exact (Finset.card_insert_le _ _).trans (Nat.succ_le_succ hold)
    · exact hold

theorem detach (h : f.Covered) (p c : Nat) : (f.detach p c).Covered := by
  by_cases hmem : c ∈ f.children p
  · constructor
    · intro q d hd
      rw [children_detach hmem] at hd
      rw [size_detach]
      split at hd
      · exact h.child_lt q d (List.mem_of_mem_filter hd)
      · exact h.child_lt q d hd
    · intro j e' he
      rw [entity?_detach hmem] at he
      obtain ⟨e, hsome, rfl⟩ := Option.map_eq_some_iff.mp he
      have hold := h.inDegree j e hsome
      rw [toFinset_children_detach hmem]
      split
      next hj =>
        subst hj
        rw [Finset.card_erase_of_mem (List.mem_toFinset.mpr hmem)]
        exact Nat.sub_le_sub_right hold 1
      next => exact hold
    · intro j e' he
      rw [entity?_detach hmem] at he
      obtain ⟨e, hsome, rfl⟩ := Option.map_eq_some_iff.mp he
      have hold := h.outDegree j e hsome
      rw [holders_detach hmem]
      split
      next hj =>
        subst hj
        rw [Finset.card_erase_of_mem (mem_holders.mpr hmem)]
        exact Nat.sub_le_sub_right hold 1
      next => exact hold
  · rw [detach_of_not_mem hmem]
    exact h

theorem release (h : f.Covered) (i : Nat) : (f.release i).Covered := by
  rw [Forest.release]
  split
  · exact h
  · exact h.detach _ i

theorem spliced (h : f.Covered) (i : Nat) (header : String) :
    (f.modify i (·.spliceHeader header)).Covered :=
  h.modify (fun _ => rfl) (fun _ => rfl)

theorem claim (h : f.Covered) {owner : Entity} (hi : i < f.size) (hc : c < f.size) :
    (f.claim i c owner).Covered := by
  have hmoved := ((h.spliced i owner.signature).release i).attach (p := c)
    (by simpa using hc) (by simpa using hi)
  exact hmoved.modify (fun e => (degrees_claimedBy e owner).1) fun e =>
    (degrees_claimedBy e owner).2

theorem relate (h : f.Covered) (i c : Nat) : (f.relate i c).1.Covered :=
  relate_induction h (fun _ _ _ => h.modify (fun _ => rfl) (fun _ => rfl))
    fun _ hi howner _ => h.claim hi (lt_size_of_entity? howner)

end Covered

/-! ## Detaching with a check -/

namespace Covered

end Covered

/-! ## Runs -/

/-- All indices of the change are indices of the forest. -/
def Edit.InRange (f : Forest) : Edit → Prop
  | .push _ => True
  | .attach p c => p < f.size ∧ c < f.size
  | .detach p c => p < f.size ∧ c < f.size
  | .relate i c => i < f.size ∧ c < f.size
  | .propagateExport i => i < f.size

instance decidableInRange (f : Forest) : ∀ a, Decidable (Edit.InRange f a)
  | .push _ => .isTrue trivial
  | .attach p c => inferInstanceAs (Decidable (p < f.size ∧ c < f.size))
  | .detach p c => inferInstanceAs (Decidable (p < f.size ∧ c < f.size))
  | .relate i c => inferInstanceAs (Decidable (i < f.size ∧ c < f.size))
  | .propagateExport i => inferInstanceAs (Decidable (i < f.size))

theorem Covered.edit (h : f.Covered) {a : Edit} (ha : Edit.InRange f a) : (f.edit a).Covered := by
  cases a with
  | push e => exact h.push e
  | attach p c => exact h.attach ha.1 ha.2
  | detach p c => exact h.detach p c
  | relate i c => exact h.relate i c
  | propagateExport i =>
      apply propagateExport_induction h
      intro g j hg
      exact hg.modify (fun _ => rfl) fun _ => rfl

end Forest
end CodeAtlas

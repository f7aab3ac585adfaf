import CodeAtlas.Forest
import Mathlib.Data.List.Nodup

/-!
# Edges of forests

Parents, children and degrees under the operations of a forest.  Each operation is described once
by what it does to a cell; everything else about it is read off that description.

A forest is *linked* when it tells one story: the children of an index are exactly the indices
that name it as their parent, each once, and the degrees count these edges.  All operations that
change edges keep a forest linked.
-/

namespace CodeAtlas

namespace Forest

variable {f : Forest} {i j p c : Nat}

/-! ## Cells -/

theorem cell?_modifyCell (f : Forest) (i j : Nat) (g : Cell → Cell) :
    (f.modifyCell i g).cell? j = (f.cell? j).map fun x => if j = i then g x else x := by
  simp only [cell?, modifyCell, List.getElem?_modify]
  by_cases h : i = j
  · simp [h]
  · simp [h, Ne.symm h]

@[simp] theorem size_modifyCell (f : Forest) (i : Nat) (g : Cell → Cell) :
    (f.modifyCell i g).size = f.size := by
  simp [size, modifyCell]

@[simp] theorem size_modify (f : Forest) (i : Nat) (g : Entity → Entity) :
    (f.modify i g).size = f.size := by
  simp [modify]

theorem cell?_eq_none_iff : f.cell? i = none ↔ f.size ≤ i := by
  simp [cell?, size]

theorem entity?_eq_none_iff : f.entity? i = none ↔ f.size ≤ i := by
  simp [entity?, cell?_eq_none_iff]

theorem exists_entity?_iff : (∃ e, f.entity? i = some e) ↔ i < f.size := by
  rw [← Option.isSome_iff_exists, ← not_iff_not]
  simp [entity?_eq_none_iff]

theorem lt_size_of_entity? {e : Entity} (h : f.entity? i = some e) : i < f.size :=
  exists_entity?_iff.mp ⟨e, h⟩

theorem lt_size_of_parent? (h : f.parent? i = some p) : i < f.size := by
  by_contra hi
  have hnone : f.cell? i = none := cell?_eq_none_iff.mpr (Nat.le_of_not_lt hi)
  simp [parent?, hnone] at h

theorem lt_size_of_mem_children (h : c ∈ f.children p) : p < f.size := by
  by_contra hp
  have hnone : f.cell? p = none := cell?_eq_none_iff.mpr (Nat.le_of_not_lt hp)
  simp [children, hnone] at h

/-! ## Changing an entity -/

theorem cell?_modify (f : Forest) (i j : Nat) (g : Entity → Entity) :
    (f.modify i g).cell? j =
      (f.cell? j).map fun x => if j = i then { x with entity := g x.entity } else x := by
  rw [modify, cell?_modifyCell]

theorem entity?_modify (f : Forest) (i j : Nat) (g : Entity → Entity) :
    (f.modify i g).entity? j = (f.entity? j).map fun e => if j = i then g e else e := by
  rw [entity?, entity?, cell?_modify, Option.map_map, Option.map_map]
  congr 1
  funext x
  by_cases h : j = i <;> simp [h]

@[simp] theorem parent?_modify (f : Forest) (i j : Nat) (g : Entity → Entity) :
    (f.modify i g).parent? j = f.parent? j := by
  rw [parent?, parent?, cell?_modify]
  by_cases h : j = i <;> cases f.cell? j <;> simp [h]

@[simp] theorem children_modify (f : Forest) (i j : Nat) (g : Entity → Entity) :
    (f.modify i g).children j = f.children j := by
  rw [children, children, cell?_modify]
  by_cases h : j = i <;> cases f.cell? j <;> simp [h]

/-! ## Adding an entity -/

theorem cell?_push (f : Forest) (e : Entity) (j : Nat) :
    (f.push e).cell? j = if j = f.size then some ⟨e, none, []⟩ else f.cell? j := by
  have hsize : f.size = f.cells.length := rfl
  rw [hsize]
  simp only [cell?, push]
  rcases Nat.lt_trichotomy j f.cells.length with h | h | h
  · rw [List.getElem?_append_left h, if_neg (Nat.ne_of_lt h)]
  · simp [h]
  · rw [if_neg (Nat.ne_of_gt h), List.getElem?_append_right (Nat.le_of_lt h),
      List.getElem?_eq_none (Nat.le_of_lt h)]
    apply List.getElem?_eq_none
    simp only [List.length_singleton]
    omega

theorem entity?_push (f : Forest) (e : Entity) (j : Nat) :
    (f.push e).entity? j = if j = f.size then some e else f.entity? j := by
  rw [entity?, cell?_push]
  by_cases h : j = f.size <;> simp [h, entity?]

@[simp] theorem parent?_push (f : Forest) (e : Entity) (j : Nat) :
    (f.push e).parent? j = f.parent? j := by
  rw [parent?, parent?, cell?_push]
  by_cases h : j = f.size
  · have hnone : f.cell? j = none := cell?_eq_none_iff.mpr (Nat.le_of_eq h.symm)
    rw [if_pos h, hnone]
    rfl
  · rw [if_neg h]

@[simp] theorem children_push (f : Forest) (e : Entity) (j : Nat) :
    (f.push e).children j = f.children j := by
  rw [children, children, cell?_push]
  by_cases h : j = f.size
  · have hnone : f.cell? j = none := cell?_eq_none_iff.mpr (Nat.le_of_eq h.symm)
    rw [if_pos h, hnone]
    rfl
  · rw [if_neg h]

/-! ## Attaching -/

@[simp] theorem size_attach (f : Forest) (p c : Nat) : (f.attach p c).size = f.size := by
  simp [attach]

/-- Attaching changes the cells of its two indices only. -/
theorem cell?_attach (f : Forest) (p c j : Nat) :
    (f.attach p c).cell? j = (f.cell? j).map fun x =>
      { entity :=
          { x.entity with
            inDegree := x.entity.inDegree + if j = p then 1 else 0
            outDegree := x.entity.outDegree + if j = c then 1 else 0 }
        parent := if j = c then some p else x.parent
        children := if j = p then x.children ++ [c] else x.children } := by
  simp only [attach, cell?_modify, cell?_modifyCell, Option.map_map]
  congr 1
  funext x
  by_cases hp : j = p
  · by_cases hc : j = c
    · simp only [Function.comp_apply, if_pos hp, if_pos hc]
    · simp only [Function.comp_apply, if_pos hp, if_neg hc, Nat.add_zero]
  · by_cases hc : j = c
    · simp only [Function.comp_apply, if_neg hp, if_pos hc, Nat.add_zero]
    · simp only [Function.comp_apply, if_neg hp, if_neg hc, Nat.add_zero]

theorem entity?_attach (f : Forest) (p c j : Nat) :
    (f.attach p c).entity? j = (f.entity? j).map fun e =>
      { e with
        inDegree := e.inDegree + if j = p then 1 else 0
        outDegree := e.outDegree + if j = c then 1 else 0 } := by
  rw [entity?, cell?_attach, Option.map_map, entity?, Option.map_map]
  rfl

theorem parent?_attach (hc : c < f.size) :
    (f.attach p c).parent? j = if j = c then some p else f.parent? j := by
  rw [parent?, cell?_attach, parent?]
  by_cases h : j = c
  · cases hcell : f.cell? j with
    | none => exact absurd (cell?_eq_none_iff.mp hcell) (by omega)
    | some x => simp [h]
  · cases f.cell? j <;> simp [h]

theorem children_attach (hp : p < f.size) :
    (f.attach p c).children j = if j = p then f.children j ++ [c] else f.children j := by
  rw [children, cell?_attach, children]
  by_cases h : j = p
  · cases hcell : f.cell? j with
    | none => exact absurd (cell?_eq_none_iff.mp hcell) (by omega)
    | some x => simp [h]
  · cases f.cell? j <;> simp [h]

/-! ## Detaching -/

@[simp] theorem size_detach (f : Forest) (p c : Nat) : (f.detach p c).size = f.size := by
  rw [detach]
  split <;> simp

theorem detach_of_not_mem (h : c ∉ f.children p) : f.detach p c = f := by
  rw [detach, if_neg (by simpa using h)]

/-- Detaching a child changes the cells of its two indices only. -/
theorem cell?_detach (h : c ∈ f.children p) :
    (f.detach p c).cell? j = (f.cell? j).map fun x =>
      { entity :=
          { x.entity with
            inDegree := x.entity.inDegree - if j = p then 1 else 0
            outDegree := x.entity.outDegree - if j = c then 1 else 0 }
        parent := if j = c then none else x.parent
        children := if j = p then x.children.filter (· != c) else x.children } := by
  rw [detach, if_pos (by simpa using h)]
  simp only [cell?_modify, cell?_modifyCell, Option.map_map]
  congr 1
  funext x
  by_cases hp : j = p
  · by_cases hc : j = c
    · simp only [Function.comp_apply, if_pos hp, if_pos hc]
    · simp only [Function.comp_apply, if_pos hp, if_neg hc, Nat.sub_zero]
  · by_cases hc : j = c
    · simp only [Function.comp_apply, if_neg hp, if_pos hc, Nat.sub_zero]
    · simp only [Function.comp_apply, if_neg hp, if_neg hc, Nat.sub_zero]

theorem entity?_detach (h : c ∈ f.children p) :
    (f.detach p c).entity? j = (f.entity? j).map fun e =>
      { e with
        inDegree := e.inDegree - if j = p then 1 else 0
        outDegree := e.outDegree - if j = c then 1 else 0 } := by
  rw [entity?, cell?_detach h, Option.map_map, entity?, Option.map_map]
  rfl

theorem parent?_detach (h : c ∈ f.children p) :
    (f.detach p c).parent? j = if j = c then none else f.parent? j := by
  rw [parent?, cell?_detach h, parent?]
  by_cases hj : j = c <;> cases f.cell? j <;> simp [hj]

theorem children_detach (h : c ∈ f.children p) :
    (f.detach p c).children j =
      if j = p then (f.children j).filter (· != c) else f.children j := by
  rw [children, cell?_detach h, children]
  by_cases hj : j = p <;> cases f.cell? j <;> simp [hj]

/-! ## Linked forests -/

/-- Parents, children and degrees of a forest agree. -/
structure Linked (f : Forest) : Prop where
  nodup_children : ∀ i, (f.children i).Nodup
  mem_children : ∀ p c, c ∈ f.children p ↔ f.parent? c = some p
  inDegree : ∀ i e, f.entity? i = some e → e.inDegree = (f.children i).length
  outDegree : ∀ i e, f.entity? i = some e →
    e.outDegree = if (f.parent? i).isSome then 1 else 0

namespace Linked

theorem empty : Linked Forest.empty where
  nodup_children := by simp [Forest.empty, children, cell?]
  mem_children := by simp [Forest.empty, children, parent?, cell?]
  inDegree := by simp [Forest.empty, entity?, cell?]
  outDegree := by simp [Forest.empty, entity?, cell?]

theorem child_lt (h : f.Linked) (hc : c ∈ f.children p) : c < f.size :=
  lt_size_of_parent? ((h.mem_children p c).mp hc)

/-- An entity that has no links yet can be added. -/
theorem push (h : f.Linked) {e : Entity} (hin : e.inDegree = 0) (hout : e.outDegree = 0) :
    (f.push e).Linked where
  nodup_children j := by
    rw [children_push]
    exact h.nodup_children j
  mem_children p c := by
    rw [children_push, parent?_push]
    exact h.mem_children p c
  inDegree j e' he := by
    rw [entity?_push] at he
    rw [children_push]
    split at he
    next hj =>
      have hnone : f.cell? j = none := cell?_eq_none_iff.mpr (Nat.le_of_eq hj.symm)
      obtain rfl : e = e' := Option.some.inj he
      simp [hin, children, hnone]
    next => exact h.inDegree j e' he
  outDegree j e' he := by
    rw [entity?_push] at he
    rw [parent?_push]
    split at he
    next hj =>
      have hnone : f.cell? j = none := cell?_eq_none_iff.mpr (Nat.le_of_eq hj.symm)
      obtain rfl : e = e' := Option.some.inj he
      simp [hout, parent?, hnone]
    next => exact h.outDegree j e' he

/-- A change that leaves the degrees alone does not matter. -/
theorem modify (h : f.Linked) {g : Entity → Entity}
    (hin : ∀ e, (g e).inDegree = e.inDegree) (hout : ∀ e, (g e).outDegree = e.outDegree) :
    (f.modify i g).Linked where
  nodup_children j := by
    rw [children_modify]
    exact h.nodup_children j
  mem_children p c := by
    rw [children_modify, parent?_modify]
    exact h.mem_children p c
  inDegree j e' he := by
    rw [entity?_modify] at he
    obtain ⟨e, hsome, rfl⟩ := Option.map_eq_some_iff.mp he
    rw [children_modify, ← h.inDegree j e hsome]
    split <;> simp [hin]
  outDegree j e' he := by
    rw [entity?_modify] at he
    obtain ⟨e, hsome, rfl⟩ := Option.map_eq_some_iff.mp he
    rw [parent?_modify, ← h.outDegree j e hsome]
    split <;> simp [hout]

/-- An index without a parent can be attached anywhere. -/
theorem attach (h : f.Linked) (hp : p < f.size) (hc : c < f.size)
    (hfree : f.parent? c = none) : (f.attach p c).Linked where
  nodup_children j := by
    rw [children_attach hp]
    split
    next hj =>
      have hnot : c ∉ f.children j := by
        intro hmem
        rw [h.mem_children, hfree] at hmem
        exact absurd hmem (by simp)
      exact (h.nodup_children j).append (List.nodup_singleton c)
        (by simpa [List.disjoint_singleton] using hnot)
    next => exact h.nodup_children j
  mem_children q d := by
    have hold := h.mem_children q d
    rw [children_attach hp, parent?_attach hc]
    by_cases hq : q = p
    · by_cases hd : d = c
      · simp [hq, hd]
      · simp only [if_pos hq, List.mem_append, List.mem_singleton, hd, or_false]
        exact hold
    · by_cases hd : d = c
      · subst hd
        have hne : p ≠ q := Ne.symm hq
        simp only [if_neg hq, if_pos, Option.some.injEq, hne, iff_false, hold, hfree]
        simp
      · simp only [if_neg hq, if_neg hd]
        exact hold
  inDegree j e' he := by
    rw [entity?_attach] at he
    obtain ⟨e, hsome, rfl⟩ := Option.map_eq_some_iff.mp he
    have hold := h.inDegree j e hsome
    rw [children_attach hp]
    by_cases hj : j = p
    · simp [hj, hj ▸ hold]
    · simp [hj, hold]
  outDegree j e' he := by
    rw [entity?_attach] at he
    obtain ⟨e, hsome, rfl⟩ := Option.map_eq_some_iff.mp he
    have hold := h.outDegree j e hsome
    rw [parent?_attach hc]
    by_cases hj : j = c
    · subst hj
      simpa [hfree] using hold
    · simpa [hj] using hold

/-- Detaching keeps a forest linked, whether or not there is such an edge. -/
theorem detach (h : f.Linked) (p c : Nat) : (f.detach p c).Linked := by
  by_cases hmem : c ∈ f.children p
  · have hparent : f.parent? c = some p := (h.mem_children p c).mp hmem
    constructor
    · intro j
      rw [children_detach hmem]
      split
      · exact (h.nodup_children j).filter _
      · exact h.nodup_children j
    · intro q d
      have hold := h.mem_children q d
      rw [children_detach hmem, parent?_detach hmem]
      by_cases hd : d = c
      · subst hd
        by_cases hq : q = p
        · simp [hq]
        · have hne : p ≠ q := Ne.symm hq
          simp [hq, hold, hparent, hne]
      · rw [if_neg hd, ← hold]
        by_cases hq : q = p
        · simp [hq, hd]
        · rw [if_neg hq]
    · intro j e' he
      rw [entity?_detach hmem] at he
      obtain ⟨e, hsome, rfl⟩ := Option.map_eq_some_iff.mp he
      have hold := h.inDegree j e hsome
      rw [children_detach hmem]
      by_cases hj : j = p
      · subst hj
        have herase : (f.children j).filter (· != c) = (f.children j).erase c :=
          ((h.nodup_children j).erase_eq_filter c).symm
        simp only [if_pos, herase, List.length_erase_of_mem hmem, hold]
      · simpa [hj] using hold
    · intro j e' he
      rw [entity?_detach hmem] at he
      obtain ⟨e, hsome, rfl⟩ := Option.map_eq_some_iff.mp he
      have hold := h.outDegree j e hsome
      rw [parent?_detach hmem]
      by_cases hj : j = c
      · subst hj
        have hone : e.outDegree = 1 := by simpa [hparent] using hold
        simp [hone]
      · simpa [hj] using hold
  · rw [detach_of_not_mem hmem]
    exact h

end Linked

end Forest
end CodeAtlas

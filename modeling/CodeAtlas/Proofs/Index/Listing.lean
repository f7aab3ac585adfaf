import CodeAtlas.Proofs.Index.Store

/-!
# Listing an index

An index is listed by going down from every file along the ids of children.  In an index that
stores files this gives back the entities of the files in the order in which they were extracted.
-/

namespace CodeAtlas
namespace Index

variable {x : Index} {blocks : List FileBlock} {b : FileBlock} {e : Entity}

/-! ## Going down -/

@[simp] theorem below_nil (x : Index) (depth : Nat) : x.below depth [] = [] := by
  cases depth <;> rfl

theorem below_succ_cons (x : Index) (depth : Nat) (e : Entity) (es : List Entity) :
    x.below (depth + 1) (e :: es) =
      e :: (x.below depth (x.childrenOf e) ++ x.below (depth + 1) es) := rfl

/-- What the index holds under the id of an entity. -/
def current (x : Index) (e : Entity) : Entity := (x.find? e.id).getD e

/-- Going down along the ids of subtrees lists them in pre-order. -/
theorem below_of_subtrees {parent : String} {ids : List String} {es : List Entity}
    (h : Subtrees parent ids es)
    (hes : ∀ e ∈ es, x.find? e.id = some (x.current e) ∧ (x.current e).children = e.children)
    {depth : Nat} (hdepth : es.length ≤ depth) :
    x.below depth (ids.filterMap x.find?) = es.map x.current := by
  induction h generalizing depth with
  | nil => exact below_nil x depth
  | @cons parent e ids inner rest _ _ _ ihinner ihrest =>
      simp only [List.length_cons, List.length_append] at hdepth
      obtain ⟨depth, rfl⟩ : ∃ d, depth = d + 1 := ⟨depth - 1, by omega⟩
      obtain ⟨hfind, hchildren⟩ := hes e List.mem_cons_self
      have hinner : x.below depth (x.childrenOf (x.current e)) = inner.map x.current := by
        rw [childrenOf, hchildren]
        exact ihinner (fun d hd => hes d (by simp [hd])) (by omega)
      have hrest : x.below (depth + 1) (ids.filterMap x.find?) = rest.map x.current :=
        ihrest (fun d hd => hes d (by simp [hd])) (by omega)
      rw [List.filterMap_cons_some hfind, below_succ_cons, hinner, hrest, List.map_cons,
        List.map_append]

namespace Stores

theorem find?_eq (h : Stores x blocks) (he : e ∈ entitiesOf blocks) :
    x.find? e.id = some (x.current e) := by
  obtain ⟨imports, hfind⟩ := h.entity e he
  rw [current, hfind]
  rfl

theorem current_eq (h : Stores x blocks) (he : e ∈ entitiesOf blocks) :
    ∃ imports, x.current e = x.counted e imports := by
  obtain ⟨imports, hfind⟩ := h.entity e he
  exact ⟨imports, by rw [current, hfind]; rfl⟩

/-- What an index never changes. -/
theorem current_keeps {α : Type} (h : Stores x blocks) (he : e ∈ entitiesOf blocks)
    (field : Entity → α) (hfield : ∀ imports, field (x.counted e imports) = field e) :
    field (x.current e) = field e := by
  obtain ⟨imports, hcurrent⟩ := h.current_eq he
  rw [hcurrent, hfield]

theorem id_current (h : Stores x blocks) (he : e ∈ entitiesOf blocks) :
    (x.current e).id = e.id :=
  h.current_keeps he (·.id) fun _ => rfl

theorem children_current (h : Stores x blocks) (he : e ∈ entitiesOf blocks) :
    (x.current e).children = e.children :=
  h.current_keeps he (·.children) fun _ => rfl

/-- What is below a stored entity is what was extracted below it. -/
theorem descendants_of_subtrees (h : Stores x blocks) (hb : b ∈ blocks) (he : e ∈ b.entities)
    {inner : List Entity} (hinner : Subtrees e.id e.children inner)
    (hsub : inner.Sublist b.below) : x.descendants e.id = inner.map x.current := by
  have hmem := mem_entitiesOf hb he
  have hlength : inner.length ≤ x.size := by
    have hblock : b.entities.Sublist (entitiesOf blocks) :=
      List.sublist_flatten_of_mem (List.mem_map_of_mem hb)
    rw [h.size_eq]
    exact (hsub.trans ((List.sublist_cons_self b.file b.below).trans hblock)).length_le
  rw [descendants, topOf, h.find?_eq hmem]
  simp only [childrenOf, h.children_current hmem]
  refine below_of_subtrees hinner ?_ hlength
  intro d hd
  have hmem' := mem_entitiesOf hb (List.mem_cons_of_mem b.file (hsub.subset hd))
  exact ⟨h.find?_eq hmem', h.children_current hmem'⟩

theorem descendants_eq (h : Stores x blocks) (hb : b ∈ blocks) :
    x.descendants b.file.id = b.below.map x.current :=
  h.descendants_of_subtrees hb b.file_mem b.tree.subtrees (List.Sublist.refl b.below)

/-- The listing of an index holds what was extracted, file by file. -/
theorem ordered_eq (h : Stores x blocks) : x.ordered = (entitiesOf blocks).map x.current := by
  have hfiles : x.files.filterMap x.find? = blocks.map fun b => x.current b.file := by
    rw [h.files, List.filterMap_map, ← List.filterMap_eq_map]
    apply List.filterMap_congr
    intro b hb
    exact h.find?_eq (mem_entitiesOf hb b.file_mem)
  rw [ordered, hfiles, List.flatMap_map, entitiesOf, List.map_flatMap]
  apply List.flatMap_congr
  intro b hb
  rw [h.id_current (mem_entitiesOf hb b.file_mem), h.descendants_eq hb]
  rfl

end Stores

end Index
end CodeAtlas

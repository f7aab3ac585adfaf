import CodeAtlas.Proofs.Index.Counting
import CodeAtlas.Proofs.Index.Mirror

/-!
# Names do not depend on uses

Recording a use changes an index in two ways only: the use is kept, and the degrees of its two ends
go up.  The names in scope of a file depend on neither.  To say so, an index is stripped of its uses
and of all degrees, and the index and what is left of it mirror one another.
-/

namespace CodeAtlas

/-! ## Entities and indices without counts -/

/-- The entity without its degrees. -/
def Entity.uncounted (e : Entity) : Entity := { e with inDegree := 0, outDegree := 0 }

@[simp] theorem Entity.id_uncounted (e : Entity) : e.uncounted.id = e.id := rfl

@[simp] theorem Entity.language_uncounted (e : Entity) : e.uncounted.language = e.language := rfl

@[simp] theorem Entity.imports_uncounted (e : Entity) : e.uncounted.imports = e.imports := rfl

namespace Index

theorem resembles_of_uncounted {e e' : Entity} (h : e'.uncounted = e.uncounted) :
    e.Resembles id id e' := by
  have hview : ∀ {α : Type} (view : Entity → α), view e'.uncounted = view e.uncounted :=
    fun view => congrArg view h
  refine ⟨hview (·.id), hview (·.label), hview (·.name), hview (·.kind), hview (·.exportable),
    hview (·.language), ?_⟩
  rw [Import.Statement.placed_id, List.map_id]
  exact hview (·.imports)

/-- The index without its uses, with a view of every entity in its place. -/
def viewed (v : Entity → Entity) (x : Index) : Index :=
  { x with entities := x.entities.mapValues v, uses := .empty }

theorem rewrites_viewed {v : Entity → Entity} (hv : ∀ e, (v e).children = e.children) (x : Index) :
    Rewrites id v x (x.viewed v) where
  find? id := Table.find?_mapValues ..
  children e := by rw [hv, List.map_id]
  size := Table.size_mapValues ..

/-- The index without its uses and without degrees. -/
def uncounted (x : Index) : Index :=
  { x with entities := x.entities.mapValues Entity.uncounted, uses := .empty }

variable (x : Index)

theorem transports_uncounted : Transports id id Entity.uncounted x x.uncounted where
  toRewrites := rewrites_viewed (v := Entity.uncounted) (fun _ => rfl) x
  resembles _ := resembles_of_uncounted rfl
  injective := Function.injective_id
  isEmpty _ := rfl
  stems _ := (List.map_id _).symm
  folders _ := (List.map_id _).symm

@[simp] theorem find?_uncounted (id : String) :
    x.uncounted.find? id = (x.find? id).map Entity.uncounted :=
  x.transports_uncounted.find? id

theorem descendants_uncounted (id : String) :
    x.uncounted.descendants id = (x.descendants id).map Entity.uncounted :=
  x.transports_uncounted.descendants id

theorem filesWithStem_uncounted (stem : String) :
    x.uncounted.filesWithStem stem = (x.filesWithStem stem).map Entity.uncounted :=
  x.transports_uncounted.filesWithStem stem

theorem importTarget?_uncounted (files : List Entity) (n : Import.Name) :
    x.uncounted.importTarget? (files.map Entity.uncounted) n =
      (x.importTarget? files n).map Entity.uncounted :=
  x.transports_uncounted.importTarget? files n

theorem statementBindings_uncounted (language : Language) (s : Import.Statement) :
    x.uncounted.statementBindings language s = x.statementBindings language s := by
  have hbindings := x.transports_uncounted.statementBindings language s
  rw [Import.Statement.placed_id] at hbindings
  exact hbindings.trans (List.map_id _)

theorem namesIn_uncounted (id : String) : x.uncounted.namesIn id = x.namesIn id :=
  (x.transports_uncounted.namesIn rfl).trans (x.namesIn id).mapped_id

/-! ## Indices that differ in counts only -/

section Views

variable {x} {y : Index} {β : Type} {v : Entity → β}

theorem map_view_uncounted (hv : ∀ e, v e.uncounted = v e) (o : Option Entity) :
    (o.map Entity.uncounted).map v = o.map v := by
  cases o with
  | none => rfl
  | some e => exact congrArg some (hv e)

theorem map_find?_of_uncounted (h : x.uncounted = y.uncounted) (hv : ∀ e, v e.uncounted = v e)
    (id : String) : (x.find? id).map v = (y.find? id).map v := by
  rw [← map_view_uncounted hv, ← find?_uncounted, h, find?_uncounted, map_view_uncounted hv]

theorem map_importTarget?_of_uncounted (h : x.uncounted = y.uncounted)
    (hv : ∀ e, v e.uncounted = v e) (path : String) (n : Import.Name) :
    (x.importTarget? (x.filesWithStem path) n).map v =
      (y.importTarget? (y.filesWithStem path) n).map v := by
  rw [← map_view_uncounted hv, ← importTarget?_uncounted, ← filesWithStem_uncounted, h,
    filesWithStem_uncounted, importTarget?_uncounted, map_view_uncounted hv]

theorem map_descendants_of_uncounted (h : x.uncounted = y.uncounted)
    (hv : ∀ e, v e.uncounted = v e) (id : String) :
    (x.descendants id).map v = (y.descendants id).map v := by
  have hmap : ∀ es : List Entity, (es.map Entity.uncounted).map v = es.map v := by
    intro es
    rw [List.map_map]
    exact List.map_congr_left fun e _ => hv e
  rw [← hmap, ← descendants_uncounted, h, descendants_uncounted, hmap]

theorem statementBindings_of_uncounted (h : x.uncounted = y.uncounted) (language : Language)
    (s : Import.Statement) : x.statementBindings language s = y.statementBindings language s := by
  rw [← statementBindings_uncounted, h, statementBindings_uncounted]

theorem namesIn_of_uncounted (h : x.uncounted = y.uncounted) (id : String) :
    x.namesIn id = y.namesIn id := by
  rw [← namesIn_uncounted, h, namesIn_uncounted]

end Views

/-! ## Recording uses -/

variable {x}

theorem ordered_link (h : x.entities.Ordered) (source target : String) (lines : List Nat) :
    (x.link source target lines).1.entities.Ordered := by
  rw [entities_link]
  split
  next => exact h
  next => exact (h.modify source _).modify target _

theorem root_link (source target : String) (lines : List Nat) :
    (x.link source target lines).1.root = x.root := by
  rw [link]
  dsimp only
  split <;> rfl

/-- Recording a use changes nothing but uses and degrees. -/
theorem uncounted_link (h : x.entities.Ordered) (source target : String) (lines : List Nat) :
    (x.link source target lines).1.uncounted = x.uncounted := by
  have hentities : (x.link source target lines).1.entities.mapValues Entity.uncounted =
      x.entities.mapValues Entity.uncounted := by
    rw [entities_link]
    split
    next => rfl
    next =>
      refine ((h.modify source _).mapValues_modify target ?_).trans (h.mapValues_modify source ?_)
      · exact fun e => rfl
      · exact fun e => rfl
  rw [uncounted, uncounted, hentities, root_link, files_link]

theorem uncounted_addUse {y : Index × Nat} (h : y.1.entities.Ordered) (source : String)
    (use : String × List Nat) :
    (addUse source y use).1.entities.Ordered ∧
      (addUse source y use).1.uncounted = y.1.uncounted := by
  rw [addUse]
  split
  next => exact ⟨h, rfl⟩
  next => exact ⟨ordered_link h source use.1 use.2, uncounted_link h source use.1 use.2⟩

theorem uncounted_foldl_addUse {y : Index × Nat} (h : y.1.entities.Ordered) (source : String)
    (uses : List (String × List Nat)) :
    (uses.foldl (addUse source) y).1.entities.Ordered ∧
      (uses.foldl (addUse source) y).1.uncounted = y.1.uncounted := by
  induction uses generalizing y with
  | nil => exact ⟨h, rfl⟩
  | cons use uses ih =>
      obtain ⟨hordered, heq⟩ := uncounted_addUse h source use
      obtain ⟨hordered', heq'⟩ := ih hordered
      exact ⟨hordered', heq'.trans heq⟩

theorem uncounted_addUses (h : x.entities.Ordered) (found : List (String × Table (List Nat))) :
    (x.addUses found).1.entities.Ordered ∧ (x.addUses found).1.uncounted = x.uncounted := by
  have hfold : ∀ y : Index × Nat, y.1.entities.Ordered →
      (found.foldl (fun y f => f.2.entries.foldl (addUse f.1) y) y).1.entities.Ordered ∧
        (found.foldl (fun y f => f.2.entries.foldl (addUse f.1) y) y).1.uncounted =
          y.1.uncounted := by
    induction found with
    | nil => exact fun y hy => ⟨hy, rfl⟩
    | cons f found ih =>
        intro y hy
        obtain ⟨hordered, heq⟩ := uncounted_foldl_addUse hy f.1 f.2.entries
        obtain ⟨hordered', heq'⟩ := ih _ hordered
        exact ⟨hordered', heq'.trans heq⟩
  exact hfold (x, 0) h

end Index
end CodeAtlas

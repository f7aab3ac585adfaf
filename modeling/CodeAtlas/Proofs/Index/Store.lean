import CodeAtlas.Index
import CodeAtlas.Proofs.FileTree
import CodeAtlas.Proofs.Table

/-!
# What an index stores

An index stores the entities of files, each under its id and once, and the uses between them.  It
changes an entity only by resolving the imports of a file and by counting uses, so that a stored
entity is the extracted one with these two additions.  Adding a file and resolving imports keep it
that way.
-/

namespace CodeAtlas

namespace Index

variable {x : Index} {blocks : List FileBlock} {e file : Entity} {id : String}

/-- The entities of some files, file by file. -/
def entitiesOf (blocks : List FileBlock) : List Entity := blocks.flatMap FileBlock.entities

/-- The ids of the entities of some files. -/
def idsOf (blocks : List FileBlock) : List String := (entitiesOf blocks).map (·.id)

theorem mem_entitiesOf {b : FileBlock} (hb : b ∈ blocks) (he : e ∈ b.entities) :
    e ∈ entitiesOf blocks :=
  List.mem_flatMap.mpr ⟨b, hb, he⟩

theorem idsOf_append (blocks blocks' : List FileBlock) :
    idsOf (blocks ++ blocks') = idsOf blocks ++ idsOf blocks' := by
  rw [idsOf, entitiesOf, List.flatMap_append, List.map_append]
  rfl

theorem idsOf_singleton (b : FileBlock) : idsOf [b] = b.entities.map (·.id) := by
  rw [idsOf, entitiesOf, List.flatMap_singleton]

/-! ## Uses as pairs -/

/-- The pairs of ids in the entries of a table of uses. -/
def pairsIn (entries : List (String × Table (List Nat))) : List (String × String) :=
  entries.flatMap fun u => u.2.keys.map fun t => (u.1, t)

/-- Which id uses which. -/
def usePairs (x : Index) : List (String × String) := pairsIn x.uses.entries

/-- The number of ids that an id uses. -/
def usesFrom (x : Index) (id : String) : Nat := x.usePairs.countP (·.1 = id)

/-- The number of ids that use an id. -/
def usesTo (x : Index) (id : String) : Nat := x.usePairs.countP (·.2 = id)

/-- An extracted entity with the uses that the index knows and with other imports. -/
def counted (x : Index) (e : Entity) (imports : List Import.Statement) : Entity :=
  { e with
    imports := imports
    inDegree := e.inDegree + x.usesTo e.id
    outDegree := e.outDegree + x.usesFrom e.id }

/-! ## Stored entities -/

/-- The uses of an index are in order and lead from known ids to other known ids. -/
structure UsesAmong (x : Index) (ids : List String) : Prop where
  ordered : x.uses.Ordered
  inner : ∀ u ∈ x.uses.entries, u.2.Ordered
  nodup : x.usePairs.Nodup
  irrefl : ∀ u ∈ x.usePairs, u.1 ≠ u.2
  source_mem : ∀ u ∈ x.usePairs, u.1 ∈ ids
  target_mem : ∀ u ∈ x.usePairs, u.2 ∈ ids

theorem counted_of_uses_eq {y : Index} (huses : y.uses = x.uses) (e : Entity)
    (imports : List Import.Statement) : y.counted e imports = x.counted e imports := by
  rw [counted, counted, usesTo, usesTo, usesFrom, usesFrom, usePairs, usePairs, huses]

/-- Nothing but the uses matters, and more ids may be known. -/
theorem UsesAmong.of_uses_eq {y : Index} {ids ids' : List String} (h : x.UsesAmong ids)
    (huses : y.uses = x.uses) (hsub : ids ⊆ ids') : y.UsesAmong ids' := by
  have hpairs : y.usePairs = x.usePairs := by rw [usePairs, usePairs, huses]
  constructor
  · exact huses ▸ h.ordered
  · exact huses ▸ h.inner
  · exact hpairs ▸ h.nodup
  · exact hpairs ▸ h.irrefl
  · intro u hu
    exact hsub (h.source_mem u (hpairs ▸ hu))
  · intro u hu
    exact hsub (h.target_mem u (hpairs ▸ hu))

/-- The index holds the entities of the files and nothing else. -/
structure Stores (x : Index) (blocks : List FileBlock) : Prop where
  nodup : (idsOf blocks).Nodup
  files : x.files = blocks.map (·.file.id)
  keys_ordered : x.entities.Ordered
  keys : x.entities.keys.Perm (idsOf blocks)
  entity : ∀ e ∈ entitiesOf blocks, ∃ imports, x.find? e.id = some (x.counted e imports)
  uses : x.UsesAmong (idsOf blocks)

namespace Stores

theorem empty (root : String) : Stores (empty root) [] where
  nodup := List.nodup_nil
  files := rfl
  keys_ordered := .empty
  keys := .refl []
  entity := fun e he => absurd he (by simp [entitiesOf])
  uses := ⟨.empty, by simp [Index.empty, Table.empty], List.nodup_nil,
    by simp [usePairs, pairsIn, Index.empty, Table.empty],
    by simp [usePairs, pairsIn, Index.empty, Table.empty],
    by simp [usePairs, pairsIn, Index.empty, Table.empty]⟩

theorem contains_iff (h : Stores x blocks) :
    x.entities.contains id = true ↔ id ∈ idsOf blocks := by
  rw [Table.contains_iff_mem_keys, h.keys.mem_iff]

theorem size_eq (h : Stores x blocks) : x.size = (entitiesOf blocks).length := by
  have hlength := h.keys.length_eq
  rwa [Table.keys, idsOf, List.length_map, List.length_map] at hlength

end Stores

/-! ## Adding a file -/

theorem find?_foldl_addEntity_of_not_mem (x : Index) (es : List Entity)
    (h : id ∉ es.map (·.id)) : (es.foldl addEntity x).find? id = x.find? id := by
  induction es generalizing x with
  | nil => rfl
  | cons e es ih =>
      rw [List.map_cons, List.mem_cons, not_or] at h
      rw [List.foldl_cons, ih (x.addEntity e) h.2]
      exact Table.find?_insert_of_ne x.entities e h.1

theorem find?_foldl_addEntity_of_mem (x : Index) {es : List Entity} (hes : (es.map (·.id)).Nodup)
    (he : e ∈ es) : (es.foldl addEntity x).find? e.id = some e := by
  induction es generalizing x with
  | nil => exact absurd he (by simp)
  | cons d es ih =>
      rw [List.map_cons, List.nodup_cons] at hes
      rw [List.foldl_cons]
      rcases List.mem_cons.mp he with rfl | he
      · rw [find?_foldl_addEntity_of_not_mem _ es hes.1]
        exact Table.find?_insert_self x.entities e.id e
      · exact ih (x.addEntity d) hes.2 he

theorem keys_foldl_addEntity (x : Index) {es : List Entity} (hes : (es.map (·.id)).Nodup)
    (hnew : ∀ id ∈ es.map (·.id), id ∉ x.entities.keys) :
    (es.foldl addEntity x).entities.keys.Perm (x.entities.keys ++ es.map (·.id)) := by
  induction es generalizing x with
  | nil => rw [List.map_nil, List.append_nil]; exact .refl _
  | cons e es ih =>
      rw [List.map_cons, List.nodup_cons] at hes
      have hfree : x.entities.find? e.id = none :=
        Table.find?_eq_none_iff.mpr (hnew e.id (by simp))
      have hkeys : (x.addEntity e).entities.keys.Perm (e.id :: x.entities.keys) :=
        (Table.entries_insert_of_none hfree e).map Prod.fst
      rw [List.foldl_cons]
      refine (ih (x.addEntity e) hes.2 ?_).trans ?_
      · intro id hid hmem
        rcases List.mem_cons.mp (hkeys.mem_iff.mp hmem) with rfl | hmem
        · exact hes.1 hid
        · exact hnew id (by rw [List.map_cons]; exact List.mem_cons_of_mem _ hid) hmem
      · rw [List.map_cons]
        exact (hkeys.append_right _).trans List.perm_middle.symm

theorem ordered_foldl_addEntity (h : x.entities.Ordered) (es : List Entity) :
    (es.foldl addEntity x).entities.Ordered :=
  List.foldlRecOn (motive := fun y : Index => y.entities.Ordered) es addEntity h
    fun _ hy e _ => hy.insert e.id e

theorem foldl_addEntity_others (x : Index) (es : List Entity) :
    (es.foldl addEntity x).files = x.files ∧ (es.foldl addEntity x).uses = x.uses := by
  induction es generalizing x with
  | nil => exact ⟨rfl, rfl⟩
  | cons e es ih => exact ih (x.addEntity e)

theorem addFile_others (x : Index) (b : FileBlock) :
    (x.addFile b.entities).files = x.files ++ [b.file.id] ∧
      (x.addFile b.entities).uses = x.uses :=
  foldl_addEntity_others { x with files := x.files ++ [b.file.id] } b.entities

/-- No use leads to or from an id that is not known. -/
theorem UsesAmong.count_eq_zero {ids : List String} (h : x.UsesAmong ids) (hid : id ∉ ids) :
    x.usesTo id = 0 ∧ x.usesFrom id = 0 := by
  rw [usesTo, usesFrom, List.countP_eq_zero, List.countP_eq_zero]
  constructor
  · intro u hu hto
    exact hid (of_decide_eq_true hto ▸ h.target_mem u hu)
  · intro u hu hfrom
    exact hid (of_decide_eq_true hfrom ▸ h.source_mem u hu)

namespace Stores

/-- A file whose ids are new can be added. -/
theorem addFile (h : Stores x blocks) {b : FileBlock}
    (hnew : ∀ id ∈ b.entities.map (·.id), id ∉ idsOf blocks) :
    Stores (x.addFile b.entities) (blocks ++ [b]) := by
  have hids : idsOf (blocks ++ [b]) = idsOf blocks ++ b.entities.map (·.id) := by
    rw [idsOf_append, idsOf_singleton]
  have hb : (b.entities.map (·.id)).Nodup := b.tree.nodup_ids
  obtain ⟨hfiles, huses⟩ := addFile_others x b
  constructor
  · rw [hids, List.nodup_append]
    refine ⟨h.nodup, hb, ?_⟩
    rintro a ha _ hmem rfl
    exact hnew a hmem ha
  · rw [hfiles, h.files, List.map_append]
    rfl
  · exact ordered_foldl_addEntity (x := { x with files := x.files ++ [b.file.id] }) h.keys_ordered
      b.entities
  · rw [hids]
    refine (keys_foldl_addEntity _ hb ?_).trans (h.keys.append_right _)
    intro id hid hmem
    exact hnew id hid (h.keys.mem_iff.mp hmem)
  · intro e he
    simp only [counted_of_uses_eq huses]
    rw [entitiesOf, List.flatMap_append, List.flatMap_singleton, List.mem_append] at he
    rcases he with he | he
    · obtain ⟨imports, hfind⟩ := h.entity e he
      refine ⟨imports, ?_⟩
      rw [← hfind]
      apply find?_foldl_addEntity_of_not_mem
      intro hmem
      exact hnew e.id hmem (List.mem_map_of_mem he)
    · -- no use leads from or to an id that was not known
      obtain ⟨hto, hfrom⟩ := h.uses.count_eq_zero (hnew e.id (List.mem_map_of_mem he))
      refine ⟨e.imports, ?_⟩
      rw [counted, hto, hfrom]
      exact find?_foldl_addEntity_of_mem _ hb he
  · rw [hids]
    exact h.uses.of_uses_eq huses (List.subset_append_left _ _)

/-! ## Resolving imports -/

/-- The imports of a file can be replaced. -/
theorem insertImports (h : Stores x blocks) (hfind : x.find? id = some file)
    (imports : List Import.Statement) :
    Stores { x with entities := x.entities.insert id { file with imports := imports } }
      blocks where
  nodup := h.nodup
  files := h.files
  keys_ordered := h.keys_ordered.insert _ _
  keys := by
    rw [h.keys_ordered.keys_insert hfind]
    exact h.keys
  entity := by
    intro e he
    obtain ⟨old, hold⟩ := h.entity e he
    by_cases hid : e.id = id
    · refine ⟨imports, ?_⟩
      rw [hid, hfind] at hold
      obtain rfl : file = x.counted e old := Option.some.inj hold
      rw [hid]
      exact Table.find?_insert_self _ _ _
    · exact ⟨old, (Table.find?_insert_of_ne _ _ hid).trans hold⟩
  uses := h.uses.of_uses_eq rfl (List.Subset.refl _)

theorem resolveFile {y : Index × Nat} (h : Stores y.1 blocks) (r : Import.Resolver)
    (id : String) : Stores (Index.resolveFile r y id).1 blocks := by
  rw [Index.resolveFile]
  split
  next => exact h
  next file hfind => exact h.insertImports hfind _

theorem resolveImports (h : Stores x blocks) : Stores x.resolveImports.1 blocks :=
  List.foldlRecOn (motive := fun y : Index × Nat => Stores y.1 blocks) x.files _ h
    fun _ hy id _ => hy.resolveFile _ id

end Stores

end Index
end CodeAtlas

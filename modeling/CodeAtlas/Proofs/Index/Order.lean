import CodeAtlas.Proofs.Index.Agreement
import CodeAtlas.Proofs.Index.Reach

/-!
# The order of files

Files may be given in any order.  Each stage of adding them keeps two indices apart in the order of
their files only: entities are stored by id, imports are looked for among the sorted files, and what
a file uses depends on the names that it sees.  So the summary, the entities and their uses come out
the same, and records are listed file by file.
-/

namespace CodeAtlas
namespace Index

variable {x y : Index} {blocks blocks' : List FileBlock} {files files' : List SourceFile}

/-- Two indices that differ in the order of their files only. -/
structure Reordered (x y : Index) : Prop where
  root : y.root = x.root
  files : x.files.Perm y.files
  entities : y.entities = x.entities
  uses : y.uses = x.uses

/-! ## Resolvers -/

namespace Reordered

theorem find?_eq (h : Reordered x y) (id : String) : y.find? id = x.find? id := by
  rw [find?, find?, h.entities]

theorem resolver_eq (h : Reordered x y) : y.resolver = x.resolver := by
  rw [resolver, resolver, h.root, Import.Resolver.ofFiles, Import.Resolver.ofFiles,
    Import.sorted_eq_of_mem fun s => h.files.mem_iff]

/-! ## Resolving imports -/

theorem resolveImports (h : Reordered x y) (hx : Stores x blocks) (hy : Stores y blocks') :
    Reordered x.resolveImports.1 y.resolveImports.1 ∧
      y.resolveImports.2 = x.resolveImports.2 := by
  obtain ⟨hroot, hfiles, huses⟩ := resolveImports_others x
  obtain ⟨hroot', hfiles', huses'⟩ := resolveImports_others y
  have hlost : (fun id => ((y.find? id).map (Entity.lost y.resolver)).getD 0) =
      fun id => ((x.find? id).map (Entity.lost x.resolver)).getD 0 := by
    funext id
    rw [h.find?_eq, h.resolver_eq]
  constructor
  · refine ⟨by rw [hroot, hroot', h.root], by rw [hfiles, hfiles']; exact h.files, ?_,
      by rw [huses, huses', h.uses]⟩
    apply hy.resolveImports.keys_ordered.ext hx.resolveImports.keys_ordered
    intro id
    rw [← find?, ← find?, find?_resolveImports, find?_resolveImports, h.find?_eq, h.resolver_eq]
    simp only [h.files.mem_iff]
  · rw [count_resolveImports, count_resolveImports, hlost]
    exact (h.files.symm.map _).sum_nat

/-! ## Recording uses -/

theorem alike (h : Reordered x y) (hx : Stores x blocks) (hy : Stores y blocks')
    (hblocks : blocks.Perm blocks') : Alike x y blocks blocks' fun _ => True := by
  refine ⟨hx, hy, h.resolver_eq, fun b hb _ => hblocks.mem_iff.mp hb, ?_⟩
  intro b _ _ d _
  rw [current, current, h.find?_eq]

theorem addUses (h : Reordered x y) (hx : Stores x blocks) (hy : Stores y blocks')
    (hblocks : blocks.Perm blocks') (hfilled : x.UsesFilled) :
    Reordered (x.addUses x.foundUses).1 (y.addUses y.foundUses).1 ∧
      (y.addUses y.foundUses).2 = (x.addUses x.foundUses).2 := by
  have hold : ∀ s t, y.lines? s t = x.lines? s t := by
    intro s t
    rw [lines?, lines?, knownUses, knownUses, usesOf?, usesOf?, h.uses]
  obtain ⟨huses, hfind⟩ := (h.alike hx hy hblocks).addUses_eq hblocks hfilled
    (hfilled.of_uses_eq h.uses) fun s t => Or.inl (hold s t)
  obtain ⟨hroot, hfiles, -⟩ := addUses_keeps hx.keys_ordered x.foundUses
  obtain ⟨hroot', hfiles', -⟩ := addUses_keeps hy.keys_ordered y.foundUses
  constructor
  · refine ⟨by rw [hroot, hroot', h.root], by rw [hfiles, hfiles']; exact h.files, ?_, huses⟩
    exact hy.addUses_found.keys_ordered.ext hx.addUses_found.keys_ordered hfind
  · have hcount := hx.count_addUses hx.usesInFile_source_mem
    have hcount' := hy.count_addUses hy.usesInFile_source_mem
    rw [usePairs, usePairs, ← foundUses] at hcount hcount'
    rw [huses, h.uses, ← hcount] at hcount'
    exact Nat.add_right_cancel hcount'

end Reordered

/-! ## Adding files in another order -/

theorem extracted_eq_flatMap (files : List SourceFile) :
    extracted files = files.flatMap fun f => f.extract?.getD [] := by
  induction files with
  | nil => rfl
  | cons f files ih =>
      rw [List.flatMap_cons, ← ih, extracted]
      cases hes : f.extract? with
      | none => rw [List.filterMap_cons_none hes]; rfl
      | some es => rw [List.filterMap_cons_some hes]; rfl

theorem BlocksOf.entitiesOf_eq (h : BlocksOf files blocks) : entitiesOf blocks = extracted files := by
  rw [entitiesOf, List.flatMap, h.entities, extracted]

/-- Blocks are determined by their entities. -/
theorem FileBlock.entities_injective : Function.Injective FileBlock.entities := by
  rintro ⟨file, below, tree⟩ ⟨file', below', tree'⟩ h
  obtain ⟨rfl, rfl⟩ := List.cons.inj h
  rfl

theorem BlocksOf.perm (h : BlocksOf files blocks) (h' : BlocksOf files' blocks')
    (hperm : files.Perm files') : blocks.Perm blocks' := by
  have hentities := hperm.filterMap (·.extract?)
  rw [← h.entities, ← h'.entities] at hentities
  exact (List.map_perm_map_iff FileBlock.entities_injective).mp hentities

theorem find?_addFiles_empty (root : String) (hnodup : ((extracted files).map (·.id)).Nodup)
    (id : String) (e : Entity) :
    (addFiles files (empty root) 0 0).1.find? id = some e ↔ e ∈ extracted files ∧ e.id = id := by
  rw [find?_addFiles]
  by_cases hid : id ∈ (extracted files).map (·.id)
  · obtain ⟨d, hd, rfl⟩ := List.mem_map.mp hid
    rw [find?_foldl_addEntity_of_mem _ hnodup hd, Option.some_inj]
    constructor
    · rintro rfl
      exact ⟨hd, rfl⟩
    · rintro ⟨he, hsame⟩
      exact List.inj_on_of_nodup_map hnodup hd he hsame.symm
  · rw [find?_foldl_addEntity_of_not_mem _ _ hid]
    constructor
    · intro h
      exact absurd h (by simp [find?, empty])
    · rintro ⟨he, rfl⟩
      exact absurd (List.mem_map_of_mem he) hid

theorem reordered_addFiles (root : String) (hperm : files.Perm files')
    (hx : Stores (addFiles files (empty root) 0 0).1 blocks) (hblocks : BlocksOf files blocks)
    (hy : Stores (addFiles files' (empty root) 0 0).1 blocks')
    (hblocks' : BlocksOf files' blocks') :
    Reordered (addFiles files (empty root) 0 0).1 (addFiles files' (empty root) 0 0).1 := by
  obtain ⟨-, hroot, huses, -⟩ := addFiles_eq files (empty root) 0 0
  obtain ⟨-, hroot', huses', -⟩ := addFiles_eq files' (empty root) 0 0
  have hnodup : ((extracted files).map (·.id)).Nodup := hblocks.entitiesOf_eq ▸ hx.nodup
  have hnodup' : ((extracted files').map (·.id)).Nodup := hblocks'.entitiesOf_eq ▸ hy.nodup
  have hextracted : (extracted files).Perm (extracted files') := by
    rw [extracted_eq_flatMap, extracted_eq_flatMap]
    exact hperm.flatMap_right _
  refine ⟨by rw [hroot, hroot'], ?_, ?_, by rw [huses, huses']⟩
  · rw [hx.files, hy.files]
    exact (hblocks.perm hblocks' hperm).map _
  · apply hy.keys_ordered.ext hx.keys_ordered
    intro id
    ext e
    rw [← find?, ← find?, find?_addFiles_empty root hnodup, find?_addFiles_empty root hnodup',
      hextracted.mem_iff]

/-- What files leave in an empty index does not depend on their order. -/
theorem reordered_add (root : String) (hperm : files.Perm files') (hapart : PathsApart files) :
    Reordered ((empty root).add files).1 ((empty root).add files').1 ∧
      ((empty root).add files).2 = ((empty root).add files').2 := by
  have hapart' : PathsApart files' :=
    ⟨(hperm.map _).nodup_iff.mp hapart.nodup, fun f hf => hapart.colonFree f (hperm.mem_iff.mpr hf)⟩
  obtain ⟨blocks, hx, hblocks⟩ := (holds_empty root).addFiles files hapart 0 0
  obtain ⟨blocks', hy, hblocks'⟩ := (holds_empty root).addFiles files' hapart' 0 0
  obtain ⟨hresolved, hlost⟩ := (reordered_addFiles root hperm hx hblocks hy hblocks').resolveImports
    hx hy
  have hfilled : ((empty root).readied files).UsesFilled :=
    (usesFilled_empty root).of_uses_eq (readied_others _ files).2
  obtain ⟨hadded, hcount⟩ := hresolved.addUses hx.resolveImports hy.resolveImports
    (hblocks.perm hblocks' hperm) hfilled
  rw [add_eq, add_eq]
  refine ⟨hadded, ?_⟩
  have hsize : ((empty root).add files').1.size = ((empty root).add files).1.size :=
    congrArg Table.size hadded.entities
  simp only [Summary.mk.injEq]
  exact ⟨hperm.countP_eq _, hperm.countP_eq _, hsize.symm, hlost.symm, hcount.symm⟩

/-! ## Records -/

/-- The records of the entities of a file. -/
def recordsOf (x : Index) (f : SourceFile) : List EntityRecord :=
  (f.extract?.getD []).map fun e => .ofEntity (x.current e) (x.childrenOf (x.current e))

/-- Records are listed file by file. -/
theorem Stores.records_eq (h : Stores x blocks) (hblocks : BlocksOf files blocks) :
    x.records = files.flatMap x.recordsOf := by
  rw [records, h.ordered_eq, hblocks.entitiesOf_eq, extracted_eq_flatMap, List.map_map,
    List.map_flatMap]
  rfl

theorem Stores.originFile_of_mem (h : Stores x blocks) (hblocks : BlocksOf files blocks)
    (hcolons : ∀ f ∈ files, colonFree f.path) {f : SourceFile} (hf : f ∈ files)
    {r : EntityRecord} (hr : r ∈ x.recordsOf f) : r.originFile = f.path := by
  obtain ⟨e, he, rfl⟩ := List.mem_map.mp hr
  cases hextract : f.extract? with
  | none =>
      rw [hextract] at he
      exact absurd he (by simp)
  | some es =>
      rw [hextract, Option.getD_some] at he
      obtain ⟨-, -, -, hpath⟩ := SourceFile.exists_block (hcolons f hf) hextract
      have hmem : e ∈ entitiesOf blocks := by
        rw [hblocks.entitiesOf_eq, extracted_eq_flatMap]
        exact List.mem_flatMap.mpr ⟨f, hf, by rw [hextract]; exact he⟩
      exact (h.current_keeps hmem (·.filePath) fun _ => rfl).trans (hpath e he)

theorem recordsOf_eq (h : ∀ id, y.find? id = x.find? id) : y.recordsOf = x.recordsOf := by
  funext f
  rw [recordsOf, recordsOf]
  apply List.map_congr_left
  intro e _
  have hcurrent : y.current e = x.current e := by rw [current, current, h]
  have hchildren : y.childrenOf (x.current e) = x.childrenOf (x.current e) :=
    List.filterMap_congr fun id _ => h id
  rw [hcurrent, hchildren]

/-- Files may be given in any order: the summary, every entity and all uses are the same, and the
records are those of the files, block by block in the order of the files. -/
theorem add_perm (root : String) (hperm : files.Perm files')
    (hpaths : (files.map (·.path)).Nodup) (hcolons : ∀ f ∈ files, colonFree f.path) :
    ((empty root).add files').2 = ((empty root).add files).2 ∧
      (∀ id, ((empty root).add files').1.find? id = ((empty root).add files).1.find? id) ∧
      (∀ id, ((empty root).add files').1.usesOf? id = ((empty root).add files).1.usesOf? id) ∧
      ∃ block : SourceFile → List EntityRecord,
        (∀ f ∈ files, ∀ r ∈ block f, r.originFile = f.path) ∧
        ((empty root).add files).1.records = files.flatMap block ∧
        ((empty root).add files').1.records = files'.flatMap block := by
  have hapart : PathsApart files := ⟨hpaths, hcolons⟩
  have hapart' : PathsApart files' :=
    ⟨(hperm.map _).nodup_iff.mp hpaths, fun f hf => hcolons f (hperm.mem_iff.mpr hf)⟩
  obtain ⟨hreordered, hsummary⟩ := reordered_add root hperm hapart
  obtain ⟨blocks, hstores, hblocks⟩ := (holds_empty root).add files hapart
  obtain ⟨blocks', hstores', hblocks'⟩ := (holds_empty root).add files' hapart'
  refine ⟨hsummary.symm, hreordered.find?_eq, ?_, ((empty root).add files).1.recordsOf, ?_, ?_, ?_⟩
  · intro id
    rw [usesOf?, usesOf?, hreordered.uses]
  · exact fun f hf r hr => hstores.originFile_of_mem hblocks hcolons hf hr
  · exact hstores.records_eq hblocks
  · rw [hstores'.records_eq hblocks', recordsOf_eq hreordered.find?_eq, List.nil_append]

theorem add_perm_importingFiles :
    importingFiles.Perm importingFiles.reverse ∧ (importingFiles.map (·.path)).Nodup ∧
      (∀ f ∈ importingFiles, colonFree f.path) ∧
      ((empty "/").add importingFiles.reverse).2 = ((empty "/").add importingFiles).2 ∧
      ∀ id, ((empty "/").add importingFiles.reverse).1.find? id =
        ((empty "/").add importingFiles).1.find? id := by
  have hperm := importingFiles.reverse_perm.symm
  obtain ⟨hsummary, hfind, -⟩ := add_perm "/" hperm (by decide) (by decide)
  exact ⟨hperm, by decide, by decide, hsummary, hfind⟩

end Index
end CodeAtlas

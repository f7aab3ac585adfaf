import CodeAtlas.Proofs.Index.Fixpoint
import CodeAtlas.Proofs.Relocation.Index

/-!
# Imports below a front

Where an import leads is looked for in normal forms of paths, which need not have the front that the
files have.  Everything else that an index holds about its files has it: the records apart from
degrees and imports, and the links from definitions to what surrounds them.  Once the imports are
known to have the front too, so has the rest, as uses follow the imports.
-/

namespace CodeAtlas

variable {front root : String}

/-! ## Roots and bases -/

/-- Imports are looked for behind the root, so that only what is behind it matters. -/
theorem Import.Resolver.resolve_reroot {root' : String}
    (hroot : ∀ p, Path.append root p = Path.append root' p)
    (files : List String) (importer : String) (language : Language) (s : Statement) :
    (ofFiles root files).resolve importer language s =
      (ofFiles root' files).resolve importer language s := by
  have hbases : ∀ path anchor, (ofFiles root files).bases importer path anchor =
      (ofFiles root' files).bases importer path anchor := by
    intro path anchor
    cases anchor <;> simp only [bases, ofFiles, Path.join, hroot]
  rw [resolve, resolve]
  split
  next => rfl
  next path anchor _ =>
    simp only [hbases]
    rfl

/-! ## Outlines -/

/-- The entity without its degrees and imports. -/
def Entity.outlined (e : Entity) : Entity := { e with inDegree := 0, outDegree := 0, imports := [] }

/-- The record without its degrees and imports. -/
def EntityRecord.outlined (r : EntityRecord) : EntityRecord :=
  { r with inDegree := 0, outDegree := 0, imports := [] }

theorem Entity.children_outlined (e : Entity) : e.outlined.children = e.children := rfl

theorem EntityRecord.outlined_ofEntity (e : Entity) (children : List Entity) :
    (ofEntity e children).outlined = ofEntity e.outlined (children.map Entity.outlined) := by
  have hcode : e.outlined.codeWithoutBody (children.map Entity.outlined) =
      e.codeWithoutBody children := by
    rw [← Entity.codeWithoutBody_textual, ← e.codeWithoutBody_textual, List.map_map]
    rfl
  rw [ofEntity, ofEntity, hcode]
  rfl

namespace Index

variable {x : Index}

theorem rewrites_outlined (x : Index) :
    Rewrites id Entity.outlined x (x.viewed Entity.outlined) :=
  rewrites_viewed Entity.children_outlined x

theorem ordered_outlined (x : Index) :
    (x.viewed Entity.outlined).ordered = x.ordered.map Entity.outlined :=
  x.rewrites_outlined.ordered (List.map_id _).symm fun _ => rfl

theorem map_outlined_records (x : Index) :
    x.records.map EntityRecord.outlined = (x.viewed Entity.outlined).records := by
  rw [records, records, ordered_outlined, List.map_map, List.map_map]
  refine List.map_congr_left fun e _ => ?_
  rw [Function.comp_apply, Function.comp_apply, EntityRecord.outlined_ofEntity,
    x.rewrites_outlined.childrenOf]

theorem definesLinks_outlined (x : Index) :
    (x.viewed Entity.outlined).definesLinks = x.definesLinks := by
  rw [definesLinks, definesLinks, ordered_outlined, List.filterMap_map]
  rfl

/-- Resolving imports does not change outlines. -/
theorem outlined_resolveImports (h : x.entities.Ordered) :
    x.resolveImports.1.entities.Ordered ∧
      x.resolveImports.1.viewed Entity.outlined = x.viewed Entity.outlined := by
  refine List.foldlRecOn (motive := fun y : Index × Nat => y.1.entities.Ordered ∧
    y.1.viewed Entity.outlined = x.viewed Entity.outlined) x.files _ ⟨h, rfl⟩ ?_
  intro y hy id _
  rw [resolveFile]
  split
  next => exact hy
  next file hfile =>
    have hmodify : y.1.entities.insert id (file.resolved x.resolver) =
        y.1.entities.modify id (Entity.resolved x.resolver) := by
      rw [Table.modify, ← find?, hfile]
    have houtlined := hy.1.mapValues_modify id (f := Entity.outlined)
      (g := Entity.resolved x.resolver) fun _ => rfl
    refine ⟨hy.1.insert id _, Eq.trans ?_ hy.2⟩
    rw [← hmodify] at houtlined
    exact congrArg (fun t : Table Entity => { y.1 with entities := t, uses := .empty }) houtlined

theorem outlined_uncounted (x : Index) :
    x.uncounted.viewed Entity.outlined = x.viewed Entity.outlined := by
  simp only [viewed, uncounted, Table.mapValues, List.map_map]
  rfl

theorem ordered_addFiles (root : String) (files : List SourceFile) :
    (addFiles files (empty root) 0 0).1.entities.Ordered := by
  rw [(addFiles_eq files (empty root) 0 0).1]
  exact List.foldlRecOn (motive := Table.Ordered) _ _ .empty fun t ht e _ => ht.insert e.id e

/-- The outlines of an index are those of the entities that were stored. -/
theorem outlined_add (root : String) (files : List SourceFile) :
    ((empty root).add files).1.viewed Entity.outlined =
      (addFiles files (empty root) 0 0).1.viewed Entity.outlined := by
  have hready : ((empty root).readied files).entities.Ordered ∧
      ((empty root).readied files).viewed Entity.outlined =
        (addFiles files (empty root) 0 0).1.viewed Entity.outlined :=
    outlined_resolveImports (ordered_addFiles root files)
  rw [add_eq, ← outlined_uncounted]
  dsimp only
  rw [(uncounted_addUses hready.1 _).2, outlined_uncounted, hready.2]

/-! ## Imports that are given -/

/-- The index with other imports for its entities. -/
def withImports (imports : String → List Import.Statement) (x : Index) : Index :=
  { x with entities := ⟨x.entities.entries.map fun e => (e.1, { e.2 with imports := imports e.1 })⟩ }

theorem find?_withImports (imports : String → List Import.Statement) (x : Index) (id : String) :
    (x.withImports imports).find? id =
      (x.find? id).map fun e => { e with imports := imports id } := by
  rw [find?, find?, Table.find?, Table.find?, withImports]
  induction x.entities.entries with
  | nil => rfl
  | cons e es ih =>
      rw [List.map_cons, Table.findIn, Table.findIn, ih]
      by_cases hid : e.1 = id
      · rw [if_pos hid, if_pos hid, hid]
        rfl
      · rw [if_neg hid, if_neg hid]

theorem keys_withImports (imports : String → List Import.Statement) (x : Index) :
    (x.withImports imports).entities.keys = x.entities.keys := by
  rw [Table.keys, Table.keys, withImports, List.map_map]
  rfl

/-! ## Files with a front -/

/-- Files with a front before their paths. -/
def filesUnder (front : String) (files : List SourceFile) : List SourceFile :=
  files.map fun f => ⟨Path.under front f.path, f.content⟩

/-- What is stored for files that are written from a folder on. -/
def stored (files : List SourceFile) : Index × Nat × Nat := addFiles files (empty "") 0 0

/-- The index of files that are written from a folder on, with given imports. -/
def given (imports : String → List Import.Statement) (files : List SourceFile) : Index × Summary :=
  let x := (stored files).1.withImports imports
  ((x.addUses x.foundUses).1,
    ⟨(stored files).2.1, (stored files).2.2, (x.addUses x.foundUses).1.size, x.lostImports,
      (x.addUses x.foundUses).2⟩)

section Files

variable (h : Path.IsFront front) {files : List SourceFile}
  (hfiles : ∀ f ∈ files, Path.IsFile f.path)

include h hfiles

theorem addFiles_filesUnder (root : String) :
    addFiles (filesUnder front files) (empty root) 0 0 =
      ((stored files).1.under root front, (stored files).2) :=
  addFiles_under h hfiles (empty "") 0 0

/-- Whatever the imports lead to, the outlines of an index have the front of its files. -/
theorem records_add_outlined (root : String) :
    ((empty root).add (filesUnder front files)).1.records.map EntityRecord.outlined =
      ((stored files).1.records.map EntityRecord.outlined).map (EntityRecord.under front) := by
  rw [map_outlined_records, outlined_add, addFiles_filesUnder h hfiles, ← map_outlined_records,
    records_under h, List.map_map, List.map_map]
  rfl

theorem definesLinks_add (root : String) :
    ((empty root).add (filesUnder front files)).1.definesLinks =
      (stored files).1.definesLinks.map (Link.under front) := by
  rw [← definesLinks_outlined, outlined_add, addFiles_filesUnder h hfiles, definesLinks_outlined,
    definesLinks_under h]

theorem summary_add (root : String) :
    ((empty root).add (filesUnder front files)).2.parsed = (stored files).2.1 ∧
      ((empty root).add (filesUnder front files)).2.skipped = (stored files).2.2 ∧
      ((empty root).add (filesUnder front files)).2.entities = (stored files).1.size := by
  have hstored := addFiles_filesUnder h hfiles root
  have hviewed : ∀ x : Index, (x.viewed Entity.outlined).size = x.size :=
    fun _ => Table.size_mapValues ..
  refine ⟨congrArg (·.2.1) hstored, congrArg (·.2.2) hstored, ?_⟩
  rw [entities_add, ← hviewed, outlined_add, hstored, hviewed, size_under]

/-- If the imports have the front of the files, so has the index before uses are recorded. -/
theorem readied_filesUnder (imports : String → List Import.Statement) (root : String)
    (himports : ∀ id e, ((empty root).readied (filesUnder front files)).find?
      (Path.under front id) = some e → e.imports = (imports id).map (Import.Statement.under front)) :
    (empty root).readied (filesUnder front files) =
      ((stored files).1.withImports imports).under root front := by
  have hready : (empty root).readied (filesUnder front files) =
      ((stored files).1.under root front).resolveImports.1 := by
    rw [readied, addFiles_filesUnder h hfiles]
  have hordered : (stored files).1.entities.Ordered := ordered_addFiles "" files
  rw [hready] at himports ⊢
  obtain ⟨hroot, hnames, huses⟩ := resolveImports_others ((stored files).1.under root front)
  refine eq_of_parts hroot hnames ?_ huses
  apply Table.Ordered.ext
  · exact (outlined_resolveImports (hordered.rekey h.strictMono_under _)).1
  · refine Table.Ordered.rekey h.strictMono_under ?_ _
    rw [Table.Ordered, keys_withImports]
    exact hordered
  intro k
  rw [← find?, ← find?]
  by_cases hk : ∃ id, Path.under front id = k
  · obtain ⟨id, rfl⟩ := hk
    have himport := himports id
    rw [find?_resolveImports, find?_under h] at himport
    rw [find?_resolveImports, find?_under h, find?_under h, find?_withImports]
    cases hid : (stored files).1.find? id with
    | none => rfl
    | some e =>
        rw [hid] at himport
        have hsome := himport _ rfl
        rw [Option.map_some, Option.map_some, Option.map_some, Option.map_some, Option.some_inj]
        -- resolving changes nothing but the imports
        split at hsome
        next hmem =>
          rw [if_pos hmem]
          exact congrArg (fun imports => { e.under front with imports := imports }) hsome
        next hmem =>
          rw [if_neg hmem]
          exact congrArg (fun imports => { e.under front with imports := imports }) hsome
  · have hnone : ∀ x : Index, (x.under root front).find? k = none := by
      intro x
      refine Table.find?_eq_none_iff.mpr fun hmem => hk ?_
      obtain ⟨id, -, hid⟩ := List.mem_map.mp ((Table.keys_rekey _ _ _) ▸ hmem)
      exact ⟨id, hid⟩
    rw [find?_resolveImports, hnone, hnone]
    rfl

omit hfiles in
theorem lostImports_under (x : Index) : (x.under root front).lostImports = x.lostImports := by
  have hlost : ∀ e : Entity, (e.under front).lostImports = e.lostImports := by
    intro e
    have hsucceeds : ∀ s : Import.Statement,
        Import.Resolver.succeeds e.language (s.under front) =
          Import.Resolver.succeeds e.language s := by
      intro s
      rw [Import.Resolver.succeeds, Import.Resolver.succeeds, s.isResolved_under h]
      rfl
    simp only [Entity.lostImports, Entity.imports_under, Entity.language_under, List.countP_map,
      Function.comp_def, hsucceeds]
  rw [lostImports, lostImports, files_under, List.map_map]
  congr 1
  refine List.map_congr_left fun id _ => ?_
  rw [Function.comp_apply, x.find?_under h, Option.map_map]
  simp only [Function.comp_def, hlost]

/-- If the imports have the front of the files, so has everything else. -/
theorem add_filesUnder (imports : String → List Import.Statement) (root : String)
    (himports : ∀ id e, ((empty root).add (filesUnder front files)).1.find?
      (Path.under front id) = some e → e.imports = (imports id).map (Import.Statement.under front)) :
    (empty root).add (filesUnder front files) =
      ((given imports files).1.under root front, (given imports files).2) := by
  have hordered : ((empty root).readied (filesUnder front files)).entities.Ordered :=
    (outlined_resolveImports (ordered_addFiles root (filesUnder front files))).1
  obtain ⟨-, -, hkeeps⟩ := addUses_keeps hordered
    ((empty root).readied (filesUnder front files)).foundUses
  have hready := readied_filesUnder h hfiles imports root fun id e he => by
    have hview := hkeeps (Path.under front id)
    rw [he, Option.map_some] at hview
    obtain ⟨d, hd, huncounted⟩ := Option.map_eq_some_iff.mp hview
    have himport := himports id d (by rw [add_eq]; exact hd)
    rw [← e.imports_uncounted, ← huncounted, d.imports_uncounted]
    exact himport
  have hx : ((stored files).1.withImports imports).HasFiles :=
    HasFiles.addFiles (x := empty "") (fun f hf => absurd hf (List.not_mem_nil)) hfiles 0 0
  have huses : ((empty root).readied (filesUnder front files)).addUses
      ((empty root).readied (filesUnder front files)).foundUses =
        ((given imports files).1.under root front, (given imports files).2.uses) := by
    rw [hready, hx.foundUses_under h, addUses_under h]
    rfl
  have hlost : ((empty root).add (filesUnder front files)).2.unresolved =
      (given imports files).2.unresolved := by
    rw [add_eq]
    dsimp only
    rw [count_resolveImports_eq_lostImports, ← readied, hready, lostImports_under h]
    rfl
  obtain ⟨hparsed, hskipped, -⟩ := summary_add h hfiles root
  rw [add_eq] at hparsed hskipped hlost ⊢
  dsimp only at hparsed hskipped hlost ⊢
  rw [huses, hparsed, hskipped, hlost, size_under]
  rfl

end Files

/-! ## Roots with the same paths behind them -/

theorem imports_add (root : String) (files : List SourceFile) (id : String) :
    (((empty root).add files).1.find? id).map Entity.imports =
      ((addFiles files (empty root) 0 0).1.find? id).map fun e =>
        if id ∈ (addFiles files (empty root) 0 0).1.files then
          (e.resolved (addFiles files (empty root) 0 0).1.resolver).imports
        else e.imports := by
  have hordered : ((empty root).readied files).entities.Ordered :=
    (outlined_resolveImports (ordered_addFiles root files)).1
  have hkeeps := (addUses_keeps hordered ((empty root).readied files).foundUses).2.2 id
  have himports := congrArg (Option.map Entity.imports) hkeeps
  rw [Option.map_map, Option.map_map] at himports
  rw [add_eq]
  refine himports.trans ?_
  rw [readied, find?_resolveImports, Option.map_map]
  congr 1
  funext e
  rw [Function.comp_apply, Function.comp_apply]
  split <;> rfl

theorem filesUnder_empty (files : List SourceFile) : filesUnder "" files = files :=
  (List.map_congr_left fun f _ => by rw [Path.under_empty]; rfl).trans (List.map_id files)

section Reroot

variable {root' : String} (hroot : ∀ p, Path.append root p = Path.append root' p)
  {files : List SourceFile} (hfiles : ∀ f ∈ files, Path.IsFile f.path)

include hroot hfiles

theorem imports_reroot (id : String) :
    (((empty root').add files).1.find? id).map Entity.imports =
      (((empty root).add files).1.find? id).map Entity.imports := by
  obtain ⟨z, hz⟩ : ∃ z : Index × Nat × Nat,
      ∀ r, addFiles files (empty r) 0 0 = (z.1.under r "", z.2) :=
    ⟨stored files, fun r => by rw [← addFiles_filesUnder .empty hfiles r, filesUnder_empty]⟩
  have hresolved : ∀ e : Entity, (e.resolved (z.1.under root' "").resolver).imports =
      (e.resolved (z.1.under root "").resolver).imports := fun e =>
    congrArg (List.map · e.imports) (funext fun s =>
      (Import.Resolver.resolve_reroot hroot _ e.id e.language s).symm)
  rw [imports_add, imports_add, hz, hz]
  simp only [hresolved]
  rfl

/-- What is behind a root decides about an index, not how the root itself is written. -/
theorem add_reroot :
    ((empty root').add files).2 = ((empty root).add files).2 ∧
      ((empty root').add files).1.records = ((empty root).add files).1.records ∧
      ((empty root').add files).1.links = ((empty root).add files).1.links := by
  obtain ⟨imports, himports⟩ : ∃ imports : String → List Import.Statement,
      ∀ id, imports id = ((((empty root).add files).1.find? id).map Entity.imports).getD [] :=
    ⟨_, fun _ => rfl⟩
  have hadd : ∀ r, (∀ id, (((empty r).add files).1.find? id).map Entity.imports =
      (((empty root).add files).1.find? id).map Entity.imports) →
      (empty r).add files = ((given imports files).1.under r "", (given imports files).2) := by
    intro r hr
    have hgiven := add_filesUnder .empty hfiles imports r fun id e he => by
      rw [filesUnder_empty, Path.under_empty] at he
      rw [himports, ← hr, he, Import.Statement.under_empty, List.map_id]
      rfl
    rwa [filesUnder_empty] at hgiven
  rw [hadd root' (imports_reroot hroot hfiles), hadd root fun _ => rfl]
  refine ⟨rfl, ?_, ?_⟩
  · rw [records_under .empty, records_under .empty]
  · rw [links_under .empty, links_under .empty]

end Reroot

end Index
end CodeAtlas

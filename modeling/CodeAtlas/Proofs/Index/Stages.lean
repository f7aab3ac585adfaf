import CodeAtlas.Proofs.Import.Repetition
import CodeAtlas.Proofs.Index.Recording
import CodeAtlas.Proofs.Index.Run
import Mathlib.Algebra.Ring.Nat

/-!
# The stages of adding files

Files are added in three stages: their entities are stored, the imports of all files are resolved,
and uses are recorded.  Here is what the first two leave.  Storing entities touches their ids only,
and resolving the imports of a file only reads the list of files, so that both can be said id by id.
The third one changes nothing of this but what is counted.
-/

namespace CodeAtlas

/-- The file with its imports resolved. -/
def Entity.resolved (r : Import.Resolver) (file : Entity) : Entity :=
  { file with imports := file.imports.map (r.resolve file.id file.language) }

/-- The number of imports of a file that lead nowhere. -/
def Entity.lost (r : Import.Resolver) (file : Entity) : Nat :=
  (file.imports.map (r.resolve file.id file.language)).countP fun s =>
    !Import.Resolver.succeeds file.language s

/-- Resolving the imports of a file twice among the same files is resolving them once. -/
theorem Entity.resolved_resolved (r : Import.Resolver) (e : Entity) :
    (e.resolved r).resolved r = e.resolved r := by
  have himports : (e.imports.map (r.resolve e.id e.language)).map (r.resolve e.id e.language) =
      e.imports.map (r.resolve e.id e.language) := by
    rw [List.map_map]
    apply List.map_congr_left
    intro s _
    exact r.resolve_resolve e.id e.language s
  exact congrArg (fun imports => { e with imports := imports }) himports

theorem Entity.lost_resolved (r : Import.Resolver) (e : Entity) :
    (e.resolved r).lost r = e.lost r :=
  congrArg (fun file : Entity => file.imports.countP fun s =>
    !Import.Resolver.succeeds file.language s) (e.resolved_resolved r)

namespace Index

variable {x : Index} {id : String}

/-! ## Storing entities -/

theorem entities_foldl_addEntity (x : Index) (es : List Entity) :
    (es.foldl addEntity x).entities =
      es.foldl (fun t e => t.insert e.id e) x.entities := by
  induction es generalizing x with
  | nil => rfl
  | cons e es ih => exact ih (x.addEntity e)

theorem root_foldl_addEntity (x : Index) (es : List Entity) :
    (es.foldl addEntity x).root = x.root := by
  induction es generalizing x with
  | nil => rfl
  | cons e es ih => exact ih (x.addEntity e)

theorem addFile_entities_root (x : Index) (es : List Entity) :
    (x.addFile es).entities = es.foldl (fun t e => t.insert e.id e) x.entities ∧
      (x.addFile es).root = x.root ∧ (x.addFile es).uses = x.uses := by
  rw [addFile]
  cases es.head? with
  | none =>
      exact ⟨entities_foldl_addEntity x es, root_foldl_addEntity x es,
        (foldl_addEntity_others x es).2⟩
  | some file =>
      exact ⟨entities_foldl_addEntity _ es, root_foldl_addEntity _ es,
        (foldl_addEntity_others _ es).2⟩

/-- The entities that are extracted from files. -/
def extracted (files : List SourceFile) : List Entity := (files.filterMap (·.extract?)).flatten

/-- Adding files stores what is extracted from them, and counts them. -/
theorem addFiles_eq (files : List SourceFile) (x : Index) (parsed skipped : Nat) :
    (addFiles files x parsed skipped).1.entities =
        (extracted files).foldl (fun t e => t.insert e.id e) x.entities ∧
      (addFiles files x parsed skipped).1.root = x.root ∧
      (addFiles files x parsed skipped).1.uses = x.uses ∧
      (addFiles files x parsed skipped).2 =
        (parsed + files.countP (·.extract?.isSome), skipped + files.countP (·.extract?.isNone)) := by
  induction files generalizing x parsed skipped with
  | nil => exact ⟨rfl, rfl, rfl, rfl⟩
  | cons f files ih =>
      rw [addFiles_cons, ← SourceFile.extract?, extracted, List.countP_cons, List.countP_cons]
      cases hes : f.extract? with
      | none =>
          rw [List.filterMap_cons_none hes]
          obtain ⟨hentities, hroot, huses, hcount⟩ := ih x parsed (skipped + 1)
          refine ⟨hentities, hroot, huses, ?_⟩
          rw [hcount]
          simp only [Option.isSome_none, Option.isNone_none, Bool.false_eq_true, if_false, if_true,
            Nat.add_zero, Prod.mk.injEq, true_and]
          omega
      | some es =>
          rw [List.filterMap_cons_some hes, List.flatten_cons, List.foldl_append]
          obtain ⟨hentities', hroot', huses'⟩ := addFile_entities_root x es
          obtain ⟨hentities, hroot, huses, hcount⟩ := ih (x.addFile es) (parsed + 1) skipped
          refine ⟨?_, hroot.trans hroot', huses.trans huses', ?_⟩
          · rw [hentities, hentities']
            rfl
          · rw [hcount]
            simp only [Option.isSome_some, Option.isNone_some, Bool.false_eq_true, if_false,
              if_true, Nat.add_zero, Prod.mk.injEq, and_true]
            omega

theorem find?_addFiles (files : List SourceFile) (x : Index) (parsed skipped : Nat)
    (id : String) :
    (addFiles files x parsed skipped).1.find? id =
      ((extracted files).foldl addEntity x).find? id := by
  rw [find?, find?, (addFiles_eq files x parsed skipped).1, entities_foldl_addEntity]

/-! ## Resolving imports -/

theorem resolveFile_others (r : Import.Resolver) (y : Index × Nat) (id : String) :
    (resolveFile r y id).1.root = y.1.root ∧ (resolveFile r y id).1.files = y.1.files ∧
      (resolveFile r y id).1.uses = y.1.uses := by
  rw [resolveFile]
  split <;> exact ⟨rfl, rfl, rfl⟩

theorem find?_resolveFile (r : Import.Resolver) (y : Index × Nat) (id k : String) :
    (resolveFile r y id).1.find? k =
      (y.1.find? k).map fun e => if k = id then e.resolved r else e := by
  rw [resolveFile]
  split
  next hnone =>
    by_cases hk : k = id
    · rw [hk, hnone]
      rfl
    · simp [hk]
  next file hfile =>
    rw [find?, Table.find?_insert]
    by_cases hk : k = id
    · rw [if_pos hk, hk, hfile, Option.map_some, if_pos rfl]
      rfl
    · simp [hk, find?]

theorem count_resolveFile (r : Import.Resolver) (y : Index × Nat) (id : String) :
    (resolveFile r y id).2 = y.2 + ((y.1.find? id).map (Entity.lost r)).getD 0 := by
  rw [resolveFile]
  split
  next hnone => rw [hnone]; rfl
  next file hfile => rw [hfile]; rfl

theorem resolveImports_others (x : Index) :
    x.resolveImports.1.root = x.root ∧ x.resolveImports.1.files = x.files ∧
      x.resolveImports.1.uses = x.uses := by
  refine List.foldlRecOn (motive := fun y : Index × Nat =>
    y.1.root = x.root ∧ y.1.files = x.files ∧ y.1.uses = x.uses) x.files _ ⟨rfl, rfl, rfl⟩ ?_
  intro y ⟨hroot, hfiles, huses⟩ id _
  obtain ⟨hroot', hfiles', huses'⟩ := resolveFile_others x.resolver y id
  exact ⟨hroot'.trans hroot, hfiles'.trans hfiles, huses'.trans huses⟩

theorem resolver_resolveImports (x : Index) : x.resolveImports.1.resolver = x.resolver := by
  obtain ⟨hroot, hfiles, -⟩ := resolveImports_others x
  rw [resolver, hroot, hfiles, resolver]

/-- Every file has its imports resolved, and nothing else changes. -/
theorem find?_foldl_resolveFile (r : Import.Resolver) (ids : List String) (y : Index × Nat)
    (k : String) :
    (ids.foldl (resolveFile r) y).1.find? k =
      (y.1.find? k).map fun e => if k ∈ ids then e.resolved r else e := by
  induction ids generalizing y with
  | nil => simp
  | cons id ids ih =>
      rw [List.foldl_cons, ih, find?_resolveFile, Option.map_map]
      congr 1
      funext e
      by_cases hk : k = id
      · simp [hk, e.resolved_resolved]
      · simp [hk]

theorem count_foldl_resolveFile (r : Import.Resolver) (ids : List String) (y : Index × Nat) :
    (ids.foldl (resolveFile r) y).2 =
      y.2 + (ids.map fun id => ((y.1.find? id).map (Entity.lost r)).getD 0).sum := by
  induction ids generalizing y with
  | nil => rfl
  | cons id ids ih =>
      have hlater : ids.map (fun k =>
            (((resolveFile r y id).1.find? k).map (Entity.lost r)).getD 0) =
          ids.map fun k => ((y.1.find? k).map (Entity.lost r)).getD 0 := by
        apply List.map_congr_left
        intro k _
        rw [find?_resolveFile, Option.map_map]
        congr 2
        funext e
        by_cases hk : k = id
        · simp [hk, e.lost_resolved]
        · simp [hk]
      rw [List.foldl_cons, ih, count_resolveFile, hlater, List.map_cons, List.sum_cons,
        Nat.add_assoc]

theorem find?_resolveImports (x : Index) (k : String) :
    x.resolveImports.1.find? k =
      (x.find? k).map fun e => if k ∈ x.files then e.resolved x.resolver else e :=
  find?_foldl_resolveFile x.resolver x.files (x, 0) k

theorem count_resolveImports (x : Index) :
    x.resolveImports.2 =
      (x.files.map fun id => ((x.find? id).map (Entity.lost x.resolver)).getD 0).sum := by
  rw [resolveImports, count_foldl_resolveFile x.resolver x.files (x, 0), Nat.zero_add]

/-! ## Before uses are recorded -/

/-- The index with the entities of more files and with all imports resolved, before uses are looked
for. -/
def readied (x : Index) (files : List SourceFile) : Index :=
  (addFiles files x 0 0).1.resolveImports.1

theorem add_eq (x : Index) (files : List SourceFile) :
    x.add files =
      (((x.readied files).addUses (x.readied files).foundUses).1,
        ⟨files.countP (·.extract?.isSome), files.countP (·.extract?.isNone),
          ((x.readied files).addUses (x.readied files).foundUses).1.size,
          (addFiles files x 0 0).1.resolveImports.2,
          ((x.readied files).addUses (x.readied files).foundUses).2⟩) := by
  have hcount := (addFiles_eq files x 0 0).2.2.2
  rw [Nat.zero_add, Nat.zero_add] at hcount
  have hparsed : (addFiles files x 0 0).2.1 = files.countP (·.extract?.isSome) := by rw [hcount]
  have hskipped : (addFiles files x 0 0).2.2 = files.countP (·.extract?.isNone) := by rw [hcount]
  rw [← hparsed, ← hskipped]
  rfl

theorem readied_others (x : Index) (files : List SourceFile) :
    (x.readied files).root = x.root ∧ (x.readied files).uses = x.uses := by
  obtain ⟨-, hroot, huses, -⟩ := addFiles_eq files x 0 0
  obtain ⟨hroot', -, huses'⟩ := resolveImports_others (addFiles files x 0 0).1
  exact ⟨hroot'.trans hroot, huses'.trans huses⟩

theorem Holds.readied {files : List SourceFile} (h : x.Holds files) (new : List SourceFile)
    (hapart : PathsApart (files ++ new)) : (x.readied new).Holds (files ++ new) := by
  obtain ⟨blocks, hstores, hblocks⟩ := h.addFiles new hapart 0 0
  exact ⟨blocks, hstores.resolveImports, hblocks⟩

theorem holds_empty (root : String) : (empty root).Holds [] := ⟨[], .empty root, .nil⟩

/-! ## After uses are recorded -/

variable {files new : List SourceFile}

/-- Recording uses changes neither the files nor anything that is not counted. -/
theorem Holds.add_keeps (h : x.Holds files) (hapart : PathsApart (files ++ new)) :
    (x.add new).1.root = x.root ∧ (x.add new).1.resolver = (x.readied new).resolver ∧
      ∀ id, ((x.add new).1.find? id).map Entity.uncounted =
        ((x.readied new).find? id).map Entity.uncounted := by
  obtain ⟨blocks, hstores, -⟩ := h.readied new hapart
  obtain ⟨hroot, hfiles, hfind⟩ := addUses_keeps hstores.keys_ordered (x.readied new).foundUses
  rw [add_eq]
  refine ⟨hroot.trans (readied_others x new).1, ?_, hfind⟩
  rw [resolver, hroot, hfiles, resolver]

theorem holds_run_singleton (root : String) (hapart : PathsApart files) :
    (run root [files]).Holds files :=
  (holds_empty root).add files hapart

theorem run_keeps (root : String) (hapart : PathsApart files) :
    (run root [files]).root = root ∧
      (run root [files]).resolver = ((empty root).readied files).resolver ∧
      ∀ id, ((run root [files]).find? id).map Entity.uncounted =
        (((empty root).readied files).find? id).map Entity.uncounted :=
  (holds_empty root).add_keeps hapart

theorem Stores.uncounted_current {y : Index} {blocks blocks' : List FileBlock} (h : Stores x blocks)
    (h' : Stores y blocks') {e : Entity} (he : e ∈ entitiesOf blocks) (he' : e ∈ entitiesOf blocks')
    (hsame : (x.find? e.id).map Entity.uncounted = (y.find? e.id).map Entity.uncounted) :
    (x.current e).uncounted = (y.current e).uncounted := by
  rw [h.find?_eq he, h'.find?_eq he'] at hsame
  exact Option.some.inj hsame

end Index
end CodeAtlas

import CodeAtlas.Proofs.FilePaths
import CodeAtlas.Proofs.Index.Counting

/-!
# Runs of an index

A run adds files to an empty index, some files at a time.  When no path is given twice and no path
holds a double colon, the index stores after every step what was extracted from the files so far,
in the order in which they were given.
-/

namespace CodeAtlas

/-- The entities of a file, unless its language is not known. -/
def SourceFile.extract? (f : SourceFile) : Option (List Entity) :=
  CodeAtlas.extract? f.path f.content

/-- The files can be told apart by their ids: no path is given twice, and none is cut by a double
colon. -/
structure PathsApart (files : List SourceFile) : Prop where
  nodup : (files.map (·.path)).Nodup
  colonFree : ∀ f ∈ files, colonFree f.path

theorem PathsApart.sublist {files files' : List SourceFile} (h : PathsApart files)
    (hsub : files'.Sublist files) : PathsApart files' :=
  ⟨h.nodup.sublist (hsub.map _), fun f hf => h.colonFree f (hsub.subset hf)⟩

/-- What is extracted from a file is a tree, and every id in it leads back to the file. -/
theorem SourceFile.exists_block {f : SourceFile} {es : List Entity} (hfree : colonFree f.path)
    (h : f.extract? = some es) :
    ∃ b : FileBlock, b.entities = es ∧ b.file.id = f.path ∧ ∀ e ∈ es, e.filePath = f.path := by
  obtain ⟨l, hl, rfl⟩ := Option.map_eq_some_iff.mp h
  obtain ⟨file, below, hes, htree, hid, -, hforall⟩ :=
    Extraction.fileTree_entities l f.path f.content
      (s := Survey.of l f.content) fun d hd => Survey.kind_ne_file_of_mem hd
  rw [hes]
  refine ⟨⟨file, below, htree⟩, rfl, hid, ?_⟩
  intro e he
  apply filePath_of_idIn hl hfree
  rcases List.mem_cons.mp he with rfl | he
  · exact Or.inl hid
  · obtain ⟨d, hd, hkind, hfinishes⟩ := Extraction.exists_definition_of_mem hforall he
    exact Or.inr (Extraction.id_of_finishes hl hfree (Survey.name_ne_empty_of_mem hd hkind)
      hfinishes)

namespace Index

variable {x : Index} {blocks : List FileBlock} {files : List SourceFile}

/-- The new blocks hold what is extracted from the files. -/
structure BlocksOf (files : List SourceFile) (blocks : List FileBlock) : Prop where
  entities : blocks.map (·.entities) = files.filterMap (·.extract?)
  filePath : ∀ e ∈ entitiesOf blocks, ∃ f ∈ files, e.filePath = f.path

namespace BlocksOf

theorem nil : BlocksOf [] [] := ⟨rfl, fun e he => absurd he (by simp [entitiesOf])⟩

theorem append {files' : List SourceFile} {blocks' : List FileBlock} (h : BlocksOf files blocks)
    (h' : BlocksOf files' blocks') : BlocksOf (files ++ files') (blocks ++ blocks') := by
  constructor
  · rw [List.map_append, List.filterMap_append, h.entities, h'.entities]
  · intro e he
    rw [entitiesOf, List.flatMap_append, List.mem_append] at he
    rcases he with he | he
    · obtain ⟨f, hf, hpath⟩ := h.filePath e he
      exact ⟨f, List.mem_append_left _ hf, hpath⟩
    · obtain ⟨f, hf, hpath⟩ := h'.filePath e he
      exact ⟨f, List.mem_append_right _ hf, hpath⟩

theorem of_none {f : SourceFile} (h : f.extract? = none) : BlocksOf [f] [] :=
  ⟨by simp [h], fun e he => absurd he (by simp [entitiesOf])⟩

theorem of_some {f : SourceFile} {b : FileBlock} (h : f.extract? = some b.entities)
    (hpath : ∀ e ∈ b.entities, e.filePath = f.path) : BlocksOf [f] [b] := by
  constructor
  · simp [h]
  · intro e he
    rw [entitiesOf, List.flatMap_singleton] at he
    exact ⟨f, List.mem_singleton.mpr rfl, hpath e he⟩

end BlocksOf

/-- The index stores the files that were given so far. -/
def Holds (x : Index) (files : List SourceFile) : Prop :=
  ∃ blocks, Stores x blocks ∧ BlocksOf files blocks

theorem Holds.addFile {f : SourceFile} (h : x.Holds files) (hapart : PathsApart (files ++ [f]))
    {es : List Entity} (hes : f.extract? = some es) : (x.addFile es).Holds (files ++ [f]) := by
  obtain ⟨blocks, hstores, hblocks⟩ := h
  have hfree := hapart.colonFree f (by simp)
  obtain ⟨b, rfl, -, hpath⟩ := SourceFile.exists_block hfree hes
  refine ⟨blocks ++ [b], hstores.addFile ?_, hblocks.append (.of_some hes hpath)⟩
  -- an id that is known already would lead back to an earlier file
  intro id hid hmem
  obtain ⟨e, he, rfl⟩ := List.mem_map.mp hid
  obtain ⟨d, hd, hsame⟩ := List.mem_map.mp hmem
  obtain ⟨g, hg, hdpath⟩ := hblocks.filePath d hd
  have hsamePath : g.path = f.path := by
    rw [← hdpath, ← hpath e he, Entity.filePath, Entity.filePath, hsame]
  have hnodup := hapart.nodup
  rw [List.map_append, List.nodup_append] at hnodup
  exact hnodup.2.2 g.path (List.mem_map_of_mem hg) f.path (by simp) hsamePath

theorem addFiles_cons (f : SourceFile) (new : List SourceFile) (x : Index)
    (parsed skipped : Nat) :
    addFiles (f :: new) x parsed skipped =
      match CodeAtlas.extract? f.path f.content with
      | some es => addFiles new (x.addFile es) (parsed + 1) skipped
      | none => addFiles new x parsed (skipped + 1) := (rfl)

theorem Holds.addFiles (h : x.Holds files) (new : List SourceFile)
    (hapart : PathsApart (files ++ new)) (parsed skipped : Nat) :
    (addFiles new x parsed skipped).1.Holds (files ++ new) := by
  induction new generalizing x files parsed skipped with
  | nil =>
      rw [List.append_nil]
      exact h
  | cons f new ih =>
      rw [List.append_cons] at hapart ⊢
      have hprefix := hapart.sublist (List.sublist_append_left (files ++ [f]) new)
      cases hes : f.extract? with
      | some es =>
          rw [addFiles_cons, ← SourceFile.extract?, hes]
          exact ih (h.addFile hprefix hes) hapart (parsed + 1) skipped
      | none =>
          obtain ⟨blocks, hstores, hblocks⟩ := h
          have hmore := hblocks.append (.of_none hes)
          rw [List.append_nil] at hmore
          rw [addFiles_cons, ← SourceFile.extract?, hes]
          exact ih ⟨blocks, hstores, hmore⟩ hapart parsed (skipped + 1)

theorem Holds.add (h : x.Holds files) (new : List SourceFile)
    (hapart : PathsApart (files ++ new)) : (x.add new).1.Holds (files ++ new) := by
  obtain ⟨blocks, hstores, hblocks⟩ := h.addFiles new hapart 0 0
  have hresolved := hstores.resolveImports
  exact ⟨blocks, hresolved.addUses hresolved.usesInFile_source_mem, hblocks⟩

/-! ## Runs -/

/-- The index of a folder after files were added, some at a time. -/
def run (root : String) (calls : List (List SourceFile)) : Index :=
  calls.foldl (fun x files => (x.add files).1) (empty root)

theorem run_concat (root : String) (calls : List (List SourceFile)) (files : List SourceFile) :
    run root (calls ++ [files]) = ((run root calls).add files).1 := by
  rw [run, List.foldl_append]
  rfl

/-- After a run, the index stores the files that were given. -/
theorem holds_run (root : String) (calls : List (List SourceFile))
    (hapart : PathsApart calls.flatten) : (run root calls).Holds calls.flatten := by
  induction calls using List.reverseRecOn with
  | nil => exact ⟨[], .empty root, .nil⟩
  | append_singleton calls files ih =>
      rw [List.flatten_append, List.flatten_singleton] at hapart ⊢
      rw [run, List.foldl_append]
      exact (ih (hapart.sublist (List.sublist_append_left _ _))).add files hapart

theorem holds_run_take (root : String) {calls : List (List SourceFile)}
    (hapart : PathsApart calls.flatten) (step : Nat) :
    (run root (calls.take step)).Holds (calls.take step).flatten := by
  have hsub : (calls.take step).flatten.Sublist calls.flatten := by
    conv_rhs => rw [← List.take_append_drop step calls, List.flatten_append]
    exact List.sublist_append_left _ _
  exact holds_run root _ (hapart.sublist hsub)

end Index
end CodeAtlas

import CodeAtlas.Proofs.Import.Wildcards
import CodeAtlas.Proofs.Index.Run
import CodeAtlas.Proofs.Index.Uncounted

/-!
# The import statements of an index

Every import statement in an index was read from a text and then resolved, any number of times.  So
what holds of the statements of every text and is kept when a statement is resolved holds of all
statements after a run, whatever files were given and in whatever steps.  It may be said with regard
to the language of the file, which is the one that its statements are resolved in.
-/

namespace CodeAtlas

/-- Every import statement of an entity stands in the text that the entity was extracted from. -/
theorem Extraction.mem_imports_of_extract? {path content : String} {es : List Entity}
    (h : extract? path content = some es) {e : Entity} (he : e ∈ es) :
    ∃ language, ∀ s ∈ e.imports, s ∈ (Survey.of language content).imports := by
  obtain ⟨language, -, rfl⟩ := Option.map_eq_some_iff.mp h
  obtain ⟨file, below, hes, -, -, ⟨id, n, hbecomes, -⟩, hforall⟩ :=
    fileTree_entities language path content (s := Survey.of language content)
      fun d hd => Survey.kind_ne_file_of_mem hd
  refine ⟨language, ?_⟩
  rw [hes] at he
  rcases List.mem_cons.mp he with rfl | he
  · have himports : e.imports = (Survey.of language content).imports := hbecomes.imports
    exact fun s hs => himports ▸ hs
  · obtain ⟨d, -, -, id', n', hbecomes', -⟩ := exists_definition_of_mem hforall he
    have hnone : e.imports = [] :=
      hbecomes'.imports.trans (Unlinked.entity language path content d).imports
    rw [hnone]
    exact fun s hs => absurd hs (by simp)

namespace Index

variable {x : Index} {P : Language → Import.Statement → Prop}

/-- The entities stand in the order of their ids, and all their import statements have a
property. -/
structure ImportsHave (P : Language → Import.Statement → Prop) (x : Index) : Prop where
  ordered : x.entities.Ordered
  imports : ∀ id e, x.find? id = some e → ∀ s ∈ e.imports, P e.language s

namespace ImportsHave

theorem empty (P : Language → Import.Statement → Prop) (root : String) :
    ImportsHave P (empty root) :=
  ⟨.empty, fun id e he => absurd he (by simp [Index.empty, find?])⟩

theorem insert (h : ImportsHave P x) (id : String) {e : Entity}
    (he : ∀ s ∈ e.imports, P e.language s) :
    ImportsHave P { x with entities := x.entities.insert id e } := by
  refine ⟨h.ordered.insert id e, ?_⟩
  intro id' e' he'
  rw [find?, Table.find?_insert] at he'
  split at he'
  · obtain rfl := Option.some.inj he'
    exact he
  · exact h.imports id' e' he'

theorem addFile (h : ImportsHave P x) {es : List Entity}
    (hes : ∀ e ∈ es, ∀ s ∈ e.imports, P e.language s) : ImportsHave P (x.addFile es) := by
  rw [Index.addFile]
  refine List.foldlRecOn (motive := ImportsHave P) es addEntity ?_ ?_
  · split
    · exact ⟨h.ordered, h.imports⟩
    · exact h
  · intro y hy e he
    exact hy.insert e.id (hes e he)

theorem addFiles (h : ImportsHave P x)
    (hread : ∀ language content, ∀ s ∈ (Survey.of language content).imports, ∀ l, P l s)
    (new : List SourceFile) (parsed skipped : Nat) :
    ImportsHave P (addFiles new x parsed skipped).1 := by
  induction new generalizing x parsed skipped with
  | nil => exact h
  | cons f new ih =>
      cases hes : f.extract? with
      | none =>
          rw [addFiles_cons, ← SourceFile.extract?, hes]
          exact ih h parsed (skipped + 1)
      | some es =>
          rw [addFiles_cons, ← SourceFile.extract?, hes]
          refine ih (h.addFile ?_) (parsed + 1) skipped
          intro e he s hs
          obtain ⟨language, himports⟩ := Extraction.mem_imports_of_extract? hes he
          exact hread language f.content s (himports s hs) e.language

theorem resolveFile {y : Index × Nat} (h : ImportsHave P y.1)
    (hresolve : ∀ (r : Import.Resolver) importer language s, P language s →
      P language (r.resolve importer language s))
    (r : Import.Resolver) (id : String) : ImportsHave P (resolveFile r y id).1 := by
  rw [Index.resolveFile]
  split
  next => exact h
  next file hfile =>
    refine h.insert id ?_
    intro s hs
    obtain ⟨s', hs', rfl⟩ := List.mem_map.mp hs
    exact hresolve r file.id file.language s' (h.imports id file hfile s' hs')

theorem resolveImports (h : ImportsHave P x)
    (hresolve : ∀ (r : Import.Resolver) importer language s, P language s →
      P language (r.resolve importer language s)) :
    ImportsHave P x.resolveImports.1 :=
  List.foldlRecOn (motive := fun y : Index × Nat => ImportsHave P y.1) x.files _ h
    fun _ hy id _ => hy.resolveFile hresolve x.resolver id

theorem addUses (h : ImportsHave P x) (found : List (String × Table (List Nat))) :
    ImportsHave P (x.addUses found).1 := by
  obtain ⟨hordered, hsame⟩ := uncounted_addUses h.ordered found
  refine ⟨hordered, ?_⟩
  intro id e he
  have hfind := (x.addUses found).1.find?_uncounted id
  rw [he, hsame, find?_uncounted] at hfind
  obtain ⟨e', he', huncounted⟩ := Option.map_eq_some_iff.mp hfind
  rw [← e.imports_uncounted, ← e.language_uncounted, ← huncounted, e'.imports_uncounted,
    e'.language_uncounted]
  exact h.imports id e' he'

end ImportsHave

/-- A property that the statements of every text have and that resolving keeps is one of all import
statements after a run. -/
theorem importsHave_run
    (hread : ∀ language content, ∀ s ∈ (Survey.of language content).imports, ∀ l, P l s)
    (hresolve : ∀ (r : Import.Resolver) importer language s, P language s →
      P language (r.resolve importer language s))
    (root : String) (calls : List (List SourceFile)) : ImportsHave P (run root calls) := by
  refine List.foldlRecOn (motive := ImportsHave P) calls _ (.empty P root) ?_
  intro x h files _
  exact ((h.addFiles hread files 0 0).resolveImports hresolve).addUses _

/-- A first step leaves what is extracted, with the imports resolved, but for uses and degrees. -/
theorem uncounted_run_singleton (root : String) (files : List SourceFile) :
    (run root [files]).uncounted =
      (Index.addFiles files (Index.empty root) 0 0).1.resolveImports.1.uncounted := by
  have h : ImportsHave (fun _ _ => True)
      (Index.addFiles files (Index.empty root) 0 0).1.resolveImports.1 :=
    ((ImportsHave.empty _ root).addFiles (fun _ _ _ _ _ => trivial) files 0 0).resolveImports
      fun _ _ _ _ _ => trivial
  exact (uncounted_addUses h.ordered _).2

theorem wildcardAlone_run (root : String) (calls : List (List SourceFile)) :
    ImportsHave (fun _ s => s.WildcardAlone) (run root calls) :=
  importsHave_run (fun language content s hs _ =>
    Import.wildcardAlone_statements language content s hs)
    (fun r importer language _ h => h.resolve r importer language) root calls

end Index
end CodeAtlas

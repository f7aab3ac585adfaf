import CodeAtlas.Proofs.Index.Graph
import CodeAtlas.Proofs.Index.Imports
import CodeAtlas.Proofs.Index.Order

/-!
# What is reported when files are added

Every step of a run reports how many files were parsed and skipped, how many entities there are, how
many imports lead nowhere and how many uses are new.  All of this can be read off the graph that the
step leaves: imports that lead nowhere are those without a path, as nothing is ever found for a text
that names no file, and since uses are never dropped, those that were new in some step are the links
of the graph.
-/

namespace CodeAtlas
namespace Import

/-- A statement with a path names a file. -/
def Statement.PathNamed (language : Language) (s : Statement) : Prop :=
  s.path ≠ "" → (pathOfModule? language s.module).isSome = true

theorem Statement.PathNamed.resolve {language : Language} {s : Statement}
    (h : s.PathNamed language) (r : Resolver) (importer : String) :
    (r.resolve importer language s).PathNamed language := by
  intro hpath
  rw [r.module_resolve]
  cases hmodule : pathOfModule? language s.module with
  | some found => rfl
  | none =>
      -- such a statement is left alone, and had no path before
      have hsame : r.resolve importer language s = s := by rw [Resolver.resolve, hmodule]
      rw [hsame] at hpath
      rw [← hmodule]
      exact h hpath

theorem Statement.PathNamed.succeeds_iff {language : Language} {s : Statement}
    (h : s.PathNamed language) : Resolver.succeeds language s = true ↔ s.path ≠ "" := by
  rw [Resolver.succeeds, Bool.and_eq_true]
  constructor
  · rintro ⟨-, hresolved⟩
    exact s.path_ne_of_isResolved hresolved
  · intro hpath
    exact ⟨h hpath, by simpa [Statement.isResolved] using hpath⟩

end Import

/-- The number of imports of a file that lead nowhere as they stand. -/
def Entity.lostImports (file : Entity) : Nat :=
  file.imports.countP fun s => !Import.Resolver.succeeds file.language s

namespace Index

variable {x : Index} {blocks : List FileBlock} {files new : List SourceFile}

theorem pathNamed_run (root : String) (calls : List (List SourceFile)) :
    ImportsHave (fun language s => s.PathNamed language) (run root calls) :=
  importsHave_run
    (fun language content s hs _ hpath =>
      absurd (Import.fresh_statements language content s hs).1 hpath)
    (fun r importer _ _ h => h.resolve r importer) root calls

/-! ## Imports that lead nowhere -/

/-- The number of imports that lead nowhere as they stand. -/
def lostImports (x : Index) : Nat :=
  (x.files.map fun id => ((x.find? id).map Entity.lostImports).getD 0).sum

/-- The import statements of the files, as they are handed out. -/
def fileImports (x : Index) : List Import.Statement :=
  (x.records.filter fun n => n.kind = .file).flatMap (·.imports)

theorem Stores.fileImports_eq (h : Stores x blocks) :
    x.fileImports = blocks.flatMap fun b => (x.current b.file).imports := by
  rw [fileImports, records, h.ordered_eq, List.map_map, entitiesOf, List.map_flatMap,
    List.filter_flatMap, List.flatMap_assoc]
  apply List.flatMap_congr
  intro b hb
  have hkind : ∀ e ∈ b.entities, (x.current e).kind = e.kind := fun e he =>
    h.current_keeps (mem_entitiesOf hb he) (·.kind) fun _ => rfl
  -- among the entities of a file, only the file itself is one
  have hbelow : (b.below.map fun e => EntityRecord.ofEntity (x.current e)
      (x.childrenOf (x.current e))).filter (fun n => n.kind = .file) = [] := by
    rw [List.filter_eq_nil_iff]
    intro n hn
    obtain ⟨e, he, rfl⟩ := List.mem_map.mp hn
    have hne := (b.tree.kind_below e he).1
    rw [← hkind e (List.mem_cons_of_mem b.file he)] at hne
    exact fun hfile => hne (of_decide_eq_true hfile)
  have hfile : (x.current b.file).kind = .file := (hkind b.file b.file_mem).trans b.tree.kind_file
  rw [FileBlock.entities, List.map_cons, List.filter_cons_of_pos (by exact decide_eq_true hfile),
    Function.comp_def, hbelow, List.flatMap_singleton]
  rfl

/-- The imports that lead nowhere are those without a path. -/
theorem Stores.lostImports_eq (h : Stores x blocks)
    (hnamed : ImportsHave (fun language s => s.PathNamed language) x) :
    x.lostImports = x.fileImports.countP (·.path = "") := by
  rw [lostImports, h.files, h.fileImports_eq, List.countP_flatMap, List.map_map]
  congr 1
  apply List.map_congr_left
  intro b hb
  have hfind := h.find?_eq (mem_entitiesOf hb b.file_mem)
  rw [Function.comp_apply, Function.comp_apply, hfind]
  apply List.countP_congr
  intro s hs
  have hsucceeds := (hnamed.imports _ _ hfind s hs).succeeds_iff
  rw [Bool.not_eq_true', ← Bool.not_eq_true, hsucceeds, not_not, decide_eq_true_eq]

/-- What is counted while imports are resolved can be counted afterwards. -/
theorem count_resolveImports_eq_lostImports (x : Index) :
    x.resolveImports.2 = x.resolveImports.1.lostImports := by
  rw [count_resolveImports, lostImports, (resolveImports_others x).2.1]
  congr 1
  apply List.map_congr_left
  intro id hid
  rw [find?_resolveImports, Option.map_map]
  congr 2
  funext e
  rw [Function.comp_apply, if_pos hid]
  rfl

theorem lostImports_addUses (hordered : x.entities.Ordered)
    (found : List (String × Table (List Nat))) :
    (x.addUses found).1.lostImports = x.lostImports := by
  obtain ⟨-, hfiles, hfind⟩ := addUses_keeps hordered found
  rw [lostImports, lostImports, hfiles]
  congr 1
  apply List.map_congr_left
  intro id _
  rw [← map_view_uncounted (v := Entity.lostImports) (fun _ => rfl), hfind,
    map_view_uncounted fun _ => rfl]

/-! ## One step -/

theorem files_add (x : Index) (new : List SourceFile) :
    (x.add new).2.parsed + (x.add new).2.skipped = new.length := by
  rw [add_eq, List.length_eq_countP_add_countP (·.extract?.isSome)]
  congr 1
  apply List.countP_congr
  intro f _
  rw [Option.isNone_iff_eq_none, decide_eq_true_eq, Bool.not_eq_true, Option.isSome_eq_false_iff,
    Option.isNone_iff_eq_none]

theorem entities_add (x : Index) (new : List SourceFile) :
    (x.add new).2.entities = (x.add new).1.size := by
  rw [add_eq]

theorem Holds.unresolved_add (h : x.Holds files) (hapart : PathsApart (files ++ new)) :
    (x.add new).2.unresolved = (x.add new).1.lostImports := by
  obtain ⟨blocks, hstores, -⟩ := h.addFiles new hapart 0 0
  have hreadied : Stores (x.readied new) blocks := hstores.resolveImports
  rw [add_eq]
  exact (count_resolveImports_eq_lostImports _).trans
    (lostImports_addUses hreadied.keys_ordered (x.readied new).foundUses).symm

/-- The uses that are reported are those that were not recorded before. -/
theorem Holds.uses_add (h : x.Holds files) (hapart : PathsApart (files ++ new)) :
    (x.add new).2.uses + x.usePairs.length = (x.add new).1.usePairs.length := by
  obtain ⟨blocks, hreadied, -⟩ := h.readied new hapart
  have hcount := hreadied.count_addUses hreadied.usesInFile_source_mem
  have hpairs : (x.readied new).usePairs = x.usePairs := by
    rw [usePairs, (readied_others x new).2, usePairs]
  rw [hpairs] at hcount
  rw [add_eq]
  exact hcount

theorem Stores.length_records (h : Stores x blocks) : x.records.length = x.size := by
  rw [h.size_eq, records, List.length_map, h.ordered_eq, List.length_map]

theorem Stores.countP_calls (h : Stores x blocks) :
    x.links.countP (·.label = .calls) = x.usePairs.length := by
  have hdefines : x.definesLinks.countP (·.label = .calls) = 0 := by
    rw [List.countP_eq_zero]
    intro l hl
    simp [(h.mem_definesLinks hl).1]
  have hcalls : x.callsLinks.countP (·.label = .calls) = x.callsLinks.length := by
    rw [List.countP_eq_length]
    intro l hl
    simp [(mem_callsLinks hl).1]
  rw [links, List.countP_append, hdefines, hcalls, ← callsLinks_pairs, List.length_map,
    Nat.zero_add]

/-! ## Runs -/

/-- What is reported when files are added, some at a time. -/
def summaries (x : Index) : List (List SourceFile) → List Summary
  | [] => []
  | files :: calls => (x.add files).2 :: summaries (x.add files).1 calls

theorem summaries_append (x : Index) (calls calls' : List (List SourceFile)) :
    x.summaries (calls ++ calls') =
      x.summaries calls ++ (calls.foldl (fun x files => (x.add files).1) x).summaries calls' := by
  induction calls generalizing x with
  | nil => rfl
  | cons files calls ih => rw [List.cons_append, summaries, ih, summaries]; rfl

theorem take_summaries (x : Index) (calls : List (List SourceFile)) (step : Nat) :
    (x.summaries calls).take step = x.summaries (calls.take step) := by
  induction calls generalizing x step with
  | nil => rw [summaries, List.take_nil, List.take_nil, summaries]
  | cons files calls ih =>
      cases step with
      | zero => rfl
      | succ step => rw [summaries, List.take_succ_cons, ih, List.take_succ_cons, summaries]

theorem getElem?_summaries (root : String) (calls : List (List SourceFile)) (step : Nat) :
    ((empty root).summaries calls)[step]? =
      calls[step]?.map fun files => ((run root (calls.take step)).add files).2 := by
  have hfrom : ∀ (x : Index), (x.summaries calls)[step]? = calls[step]?.map fun files =>
      (((calls.take step).foldl (fun x files => (x.add files).1) x).add files).2 := by
    induction calls generalizing step with
    | nil => intro x; rfl
    | cons files calls ih =>
        intro x
        cases step with
        | zero => rfl
        | succ step => exact ih step (x.add files).1
  exact hfrom (empty root)

theorem summaries_concat (root : String) (calls : List (List SourceFile))
    (files : List SourceFile) :
    (empty root).summaries (calls ++ [files]) =
      (empty root).summaries calls ++ [((run root calls).add files).2] :=
  summaries_append (empty root) calls [files]

/-- The uses that were new in some step are those that are recorded. -/
theorem sum_uses_summaries (root : String) (calls : List (List SourceFile))
    (hapart : PathsApart calls.flatten) :
    (((empty root).summaries calls).map (·.uses)).sum = (run root calls).usePairs.length := by
  induction calls using List.reverseRecOn with
  | nil => rfl
  | append_singleton calls files ih =>
      rw [List.flatten_append, List.flatten_singleton] at hapart
      have hbefore := hapart.sublist (List.sublist_append_left calls.flatten files)
      rw [summaries_concat, List.map_append, List.sum_append, ih hbefore, run_concat,
        ← (holds_run root calls hbefore).uses_add hapart, Nat.add_comm]
      rfl

/-- After every step of a run, what was reported agrees with the graph: the files of the step were
parsed or skipped, every entity has a record, the imports that lead nowhere are those of files that
have no path, and the uses that were new in this step and before it are the links of the graph. -/
theorem summaries_run (root : String) (calls : List (List SourceFile))
    (hpaths : (calls.flatten.map (·.path)).Nodup) (hcolons : ∀ f ∈ calls.flatten, colonFree f.path)
    (step : Nat) {files : List SourceFile} (hstep : calls[step]? = some files) :
    ∃ s, ((empty root).summaries calls)[step]? = some s ∧
      s.parsed + s.skipped = files.length ∧
      s.entities = (run root (calls.take (step + 1))).records.length ∧
      s.unresolved = (run root (calls.take (step + 1))).fileImports.countP (·.path = "") ∧
      ((((empty root).summaries calls).take (step + 1)).map (·.uses)).sum =
        (run root (calls.take (step + 1))).links.countP (·.label = .calls) := by
  have htake : calls.take (step + 1) = calls.take step ++ [files] := by
    rw [List.take_add_one, hstep]
    rfl
  have hapart : PathsApart (calls.take (step + 1)).flatten :=
    PathsApart.sublist ⟨hpaths, hcolons⟩ (List.take_sublist _ _).flatten
  obtain ⟨blocks, hstores, -⟩ := holds_run root _ hapart
  have hnamed := pathNamed_run root (calls.take (step + 1))
  have hsum := sum_uses_summaries root _ hapart
  rw [← take_summaries, ← hstores.countP_calls] at hsum
  refine ⟨((run root (calls.take step)).add files).2, ?_, files_add _ files, ?_, ?_, hsum⟩
  · rw [getElem?_summaries, hstep, Option.map_some]
  · rw [hstores.length_records, htake, run_concat]
    exact entities_add _ files
  · rw [← hstores.lostImports_eq hnamed]
    rw [htake, List.flatten_append, List.flatten_singleton] at hapart
    have hbefore := hapart.sublist (List.sublist_append_left _ files)
    rw [htake, run_concat]
    exact (holds_run root _ hbefore).unresolved_add hapart

theorem summaries_run_twoSteps :
    (twoSteps.flatten.map (·.path)).Nodup ∧ (∀ f ∈ twoSteps.flatten, colonFree f.path) ∧
      twoSteps[1]? = some [⟨"/b.py", "from a import A as B\n\nB().f()\n"⟩] ∧
      ∃ s, ((empty "/").summaries twoSteps)[1]? = some s ∧
        s.parsed + s.skipped = 1 ∧
        s.entities = (run "/" (twoSteps.take 2)).records.length ∧
        s.unresolved = (run "/" (twoSteps.take 2)).fileImports.countP (·.path = "") ∧
        ((((empty "/").summaries twoSteps).take 2).map (·.uses)).sum =
          (run "/" (twoSteps.take 2)).links.countP (·.label = .calls) :=
  ⟨by decide, by decide, rfl, summaries_run "/" twoSteps (by decide) (by decide) 1 rfl⟩

end Index
end CodeAtlas

import CodeAtlas.Proofs.Index.Aliases
import CodeAtlas.Proofs.Index.Order

/-!
# Files given in two steps

Files that are given in two steps are stored as if they had been given at once, but two things are
left from the first step.  An import statement that is resolved again keeps what it had where nothing
better is found, and a use stays recorded when it is no longer found.  So the two steps agree with
one exactly when neither happens: the imports of the first files come out as if they had not been
resolved before, and what these files use without the others they use with them.
-/

namespace CodeAtlas

/-- The entity after the imports of all files are resolved. -/
def Entity.readied (r : Import.Resolver) (e : Entity) : Entity :=
  if e.kind = .file then e.resolved r else e

/-- The imports of a file are resolved, and resolved again when that is done once more. -/
theorem Entity.readied_readied (r r' : Import.Resolver) {e : Entity} (hkind : e.kind = .file) :
    e.readied r' = e.resolved r' ∧ (e.readied r).readied r' = (e.resolved r).resolved r' := by
  have hkind' : (e.resolved r).kind = .file := hkind
  rw [readied, readied, readied, if_pos hkind, if_pos hkind, if_pos hkind']
  exact ⟨rfl, rfl⟩

theorem Entity.uncounted_readied (r : Import.Resolver) (e : Entity) :
    (e.readied r).uncounted = e.uncounted.readied r := by
  rw [readied, readied]
  exact apply_ite uncounted (e.kind = .file) (e.resolved r) e

theorem Entity.map_readied_uncounted (r : Import.Resolver) (o : Option Entity) :
    (o.map (readied r)).map uncounted = (o.map uncounted).map (readied r) := by
  rw [Option.map_map, Option.map_map]
  congr 1
  funext e
  exact e.uncounted_readied r

namespace Index

variable {x : Index} {blocks : List FileBlock} {files new : List SourceFile} {e : Entity}

/-! ## Files among entities -/

theorem Stores.mem_files_iff (h : Stores x blocks) (he : e ∈ entitiesOf blocks) :
    e.id ∈ x.files ↔ e.kind = .file := by
  rw [h.files]
  constructor
  · intro hid
    obtain ⟨b, hb, hsame⟩ := List.mem_map.mp hid
    have hfile := mem_entitiesOf hb b.file_mem
    rw [← List.inj_on_of_nodup_map h.nodup hfile he hsame]
    exact b.tree.kind_file
  · intro hkind
    obtain ⟨b, hb, hmem⟩ := List.mem_flatMap.mp he
    rcases List.mem_cons.mp hmem with rfl | hbelow
    · exact List.mem_map_of_mem hb
    · exact absurd hkind (b.tree.kind_below e hbelow).1

theorem Stores.find?_resolveImports (h : Stores x blocks) (he : e ∈ entitiesOf blocks) :
    x.resolveImports.1.find? e.id = (x.find? e.id).map (Entity.readied x.resolver) := by
  have hkind : (x.current e).kind = e.kind := h.current_keeps he (·.kind) fun _ => rfl
  rw [Index.find?_resolveImports, h.find?_eq he, Option.map_some, Option.map_some,
    Entity.readied, hkind]
  simp only [h.mem_files_iff he]

theorem extracted_append (files new : List SourceFile) :
    extracted (files ++ new) = extracted files ++ extracted new := by
  rw [extracted, List.filterMap_append, List.flatten_append]
  rfl

theorem Holds.nodup_extracted (h : x.Holds files) : ((extracted files).map (·.id)).Nodup := by
  obtain ⟨blocks, hstores, hblocks⟩ := h
  exact hblocks.entitiesOf_eq ▸ hstores.nodup

/-- The files of an index are those that entities were extracted from. -/
theorem Holds.files_eq (h : x.Holds files) :
    x.files = ((files.filterMap (·.extract?)).filterMap List.head?).map (·.id) := by
  obtain ⟨blocks, hstores, hblocks⟩ := h
  rw [hstores.files, ← hblocks.entities, List.filterMap_map, List.map_filterMap,
    ← List.filterMap_eq_map]
  rfl

/-! ## Entities after the imports are resolved -/

theorem Holds.find?_readied (h : x.Holds files) (hapart : PathsApart (files ++ new))
    (he : e ∈ extracted (files ++ new)) :
    (x.readied new).find? e.id =
      (((extracted new).foldl addEntity x).find? e.id).map
        (Entity.readied (x.readied new).resolver) := by
  obtain ⟨blocks, hstores, hblocks⟩ := h.addFiles new hapart 0 0
  rw [← hblocks.entitiesOf_eq] at he
  rw [Index.readied, hstores.find?_resolveImports he, resolver_resolveImports, find?_addFiles]

/-- New entities are stored with their imports resolved. -/
theorem Holds.find?_readied_new (h : x.Holds files) (hapart : PathsApart (files ++ new))
    (he : e ∈ extracted new) :
    (x.readied new).find? e.id = some (e.readied (x.readied new).resolver) := by
  have hnodup := (h.readied new hapart).nodup_extracted
  rw [extracted_append, List.map_append, List.nodup_append] at hnodup
  have hmem : e ∈ extracted (files ++ new) := by
    rw [extracted_append]
    exact List.mem_append_right _ he
  rw [h.find?_readied hapart hmem, find?_foldl_addEntity_of_mem _ hnodup.2.1 he, Option.map_some]

/-- Stored entities have their imports resolved once more. -/
theorem Holds.find?_readied_old (h : x.Holds files) (hapart : PathsApart (files ++ new))
    (he : e ∈ extracted files) :
    (x.readied new).find? e.id =
      (x.find? e.id).map (Entity.readied (x.readied new).resolver) := by
  have hnodup := (h.readied new hapart).nodup_extracted
  rw [extracted_append, List.map_append, List.nodup_append] at hnodup
  have hmem : e ∈ extracted (files ++ new) := by
    rw [extracted_append]
    exact List.mem_append_left _ he
  have hnew : e.id ∉ (extracted new).map (·.id) :=
    fun hid => hnodup.2.2 e.id (List.mem_map_of_mem he) e.id hid rfl
  rw [h.find?_readied hapart hmem, find?_foldl_addEntity_of_not_mem _ _ hnew]

/-! ## One step and two steps -/

/-- In a single step, imports are resolved as they were read. -/
theorem find?_readied_empty (root : String) (hapart : PathsApart files)
    (he : e ∈ extracted files) :
    ((empty root).readied files).find? e.id = some (e.readied (run root [files]).resolver) := by
  rw [(run_keeps root hapart).2.1]
  exact (holds_empty root).find?_readied_new hapart he

/-- Before uses are recorded, a file has its imports resolved. -/
theorem current_file_readied (root : String) (hapart : PathsApart files)
    {blocks : List FileBlock} (hx : Stores ((empty root).readied files) blocks)
    (hblocks : BlocksOf files blocks) {b : FileBlock} (hb : b ∈ blocks) :
    ((empty root).readied files).current b.file =
      b.file.resolved (run root [files]).resolver := by
  have hmem := mem_entitiesOf hb b.file_mem
  have hfind := find?_readied_empty root hapart (hblocks.entitiesOf_eq ▸ hmem)
  rw [hx.find?_eq hmem, Entity.readied, if_pos b.tree.kind_file] at hfind
  exact Option.some.inj hfind

theorem lines?_readied_empty (root : String) (files : List SourceFile) (s t : String) :
    ((empty root).readied files).lines? s t = none := by
  rw [lines?, knownUses, usesOf?, (readied_others _ files).2]
  rfl

section Steps

variable (root : String) (hapart : PathsApart (files ++ new))

include hapart

theorem holds_first : (run root [files]).Holds files :=
  holds_run_singleton root (hapart.sublist (List.sublist_append_left files new))

/-- Both ways the same files are known. -/
theorem resolver_steps :
    ((run root [files]).readied new).resolver = (run root [files ++ new]).resolver := by
  have hroot : (run root [files]).root = root :=
    (run_keeps root (hapart.sublist (List.sublist_append_left files new))).1
  have hfiles := ((holds_first root hapart).readied new hapart).files_eq
  have hfiles' := ((holds_empty root).readied (files ++ new) hapart).files_eq
  rw [(run_keeps root hapart).2.1, resolver, resolver, (readied_others _ new).1,
    (readied_others _ (files ++ new)).1, hroot, hfiles]
  exact congrArg (Import.Resolver.ofFiles root) hfiles'.symm

/-- In two steps, the imports of the first files are resolved twice. -/
theorem find?_steps_old (he : e ∈ extracted files) :
    (((run root [files]).readied new).find? e.id).map Entity.uncounted =
      some ((e.readied (run root [files]).resolver).readied
        (run root [files ++ new]).resolver).uncounted := by
  have hfirst := hapart.sublist (List.sublist_append_left files new)
  rw [(holds_first root hapart).find?_readied_old hapart he, Entity.map_readied_uncounted,
    (run_keeps root hfirst).2.2, find?_readied_empty root hfirst he, resolver_steps root hapart,
    Option.map_some, Option.map_some, ← Entity.uncounted_readied]

theorem find?_steps_new (he : e ∈ extracted new) :
    ((run root [files]).readied new).find? e.id =
      some (e.readied (run root [files ++ new]).resolver) := by
  rw [(holds_first root hapart).find?_readied_new hapart he, resolver_steps root hapart]

end Steps

/-- More files leave alone what the first ones say: their imports come out as if they had not been
resolved before, and what they use is still used. -/
structure Settled (root : String) (files new : List SourceFile) : Prop where
  imports : ∀ e ∈ extracted files, e.kind = .file →
    (e.resolved (run root [files]).resolver).resolved (run root [files ++ new]).resolver =
      e.resolved (run root [files ++ new]).resolver
  uses : (run root [files]).usePairs ⊆ (run root [files ++ new]).usePairs

namespace Settled

variable {root : String}

/-- Before uses are recorded, the two ways differ in counts only. -/
theorem find?_eq (h : Settled root files new) (hapart : PathsApart (files ++ new))
    (he : e ∈ extracted (files ++ new)) :
    (((run root [files]).readied new).find? e.id).map Entity.uncounted =
      (((empty root).readied (files ++ new)).find? e.id).map Entity.uncounted := by
  rw [find?_readied_empty root hapart he, Option.map_some]
  rw [extracted_append, List.mem_append] at he
  rcases he with he | he
  · rw [find?_steps_old root hapart he]
    by_cases hkind : e.kind = .file
    · obtain ⟨honce, htwice⟩ := Entity.readied_readied (run root [files]).resolver
        (run root [files ++ new]).resolver hkind
      rw [honce, htwice, h.imports e he hkind]
    · simp only [Entity.readied, if_neg hkind]
  · rw [find?_steps_new root hapart he, Option.map_some]

theorem alike (h : Settled root files new) (hapart : PathsApart (files ++ new))
    {blocks blocks' : List FileBlock} (hx : Stores ((run root [files]).readied new) blocks)
    (hz : Stores ((empty root).readied (files ++ new)) blocks')
    (hblocks : BlocksOf (files ++ new) blocks) (hsame : blocks.Perm blocks') :
    Alike ((run root [files]).readied new) ((empty root).readied (files ++ new)) blocks blocks'
      fun _ => True := by
  refine ⟨hx, hz, ?_, fun b hb _ => hsame.mem_iff.mp hb, ?_⟩
  · rw [resolver_steps root hapart, (run_keeps root hapart).2.1]
  · intro b hb _ d hd
    have hmem := mem_entitiesOf hb hd
    exact hx.uncounted_current hz hmem (mem_entitiesOf (hsame.mem_iff.mp hb) hd)
      (h.find?_eq hapart (hblocks.entitiesOf_eq ▸ hmem))

/-- A use that is known from the first step is found again. -/
theorem found_of_lines? (h : Settled root files new) (hapart : PathsApart (files ++ new))
    {s t : String} (hknown : (((run root [files]).readied new).lines? s t).isSome) :
    ((empty root).readied (files ++ new)).Admits s t ∧
      (foundLines? ((empty root).readied (files ++ new)).foundUses s t).isSome := by
  obtain ⟨blocks, hx, -⟩ := (holds_first root hapart).readied new hapart
  obtain ⟨blocks', hz, -⟩ := (holds_empty root).readied (files ++ new) hapart
  have hpair : (s, t) ∈ (run root [files]).usePairs := by
    rw [usePairs, ← (readied_others (run root [files]) new).2]
    exact hx.uses.mem_usePairs.mpr hknown
  have hlines := hz.addUses_found.uses.mem_usePairs.mp (h.uses hpair)
  rw [hz.lines?_addUses_found, lines?_readied_empty, Option.or_none] at hlines
  split at hlines
  next hadmits => exact ⟨hadmits, hlines⟩
  next => exact absurd hlines (by simp)

/-- When nothing is left from the first step, the two ways end alike. -/
theorem run_eq (h : Settled root files new) (hapart : PathsApart (files ++ new)) :
    (run root [files ++ new]).uses = (run root [files, new]).uses ∧
      ∀ id, (run root [files ++ new]).find? id = (run root [files, new]).find? id := by
  obtain ⟨blocks, hx, hblocks⟩ := (holds_first root hapart).readied new hapart
  obtain ⟨blocks', hz, hblocks'⟩ := (holds_empty root).readied (files ++ new) hapart
  have hsame : blocks.Perm blocks' := hblocks.perm hblocks' (.refl _)
  have halike := h.alike hapart hx hz hblocks hsame
  have hempty := (usesFilled_empty root).of_uses_eq (readied_others _ (files ++ new)).2
  have hfirst : (run root [files]).UsesFilled :=
    ((usesFilled_empty root).of_uses_eq (readied_others _ files).2).addUses _
  refine halike.addUses_eq hsame (hfirst.of_uses_eq (readied_others _ new).2) hempty ?_
  intro s t
  by_cases hknown : (((run root [files]).readied new).lines? s t).isSome
  · obtain ⟨hadmits, hfound⟩ := h.found_of_lines? hapart hknown
    rw [halike.admits_iff hsame] at hadmits
    rw [halike.foundLines?_eq hsame] at hfound
    exact Or.inr ⟨hadmits, hfound⟩
  · left
    rw [Option.not_isSome_iff_eq_none.mp hknown, lines?_readied_empty]

end Settled

/-! ## Two steps against one -/

theorem holds_steps (root : String) (hapart : PathsApart (files ++ new)) :
    (run root [files, new]).Holds (files ++ new) :=
  (holds_first root hapart).add new hapart

/-- Nothing that was known is taken back. -/
theorem Stores.usePairs_subset_addUses (h : Stores x blocks) :
    x.usePairs ⊆ (x.addUses x.foundUses).1.usePairs := by
  rintro ⟨s, t⟩ hu
  have hknown := h.uses.mem_usePairs.mp hu
  rw [h.addUses_found.uses.mem_usePairs, h.lines?_addUses_found]
  split
  · rw [Option.isSome_or, hknown, Bool.or_true]
  · exact hknown

/-- Records that agree show the same imports. -/
theorem Stores.imports_of_records_eq {y : Index} {blocks' : List FileBlock} (h : Stores x blocks)
    (h' : Stores y blocks') (hlisted : entitiesOf blocks = entitiesOf blocks')
    (hrecords : x.records = y.records) (he : e ∈ entitiesOf blocks) :
    (x.find? e.id).map (·.imports) = (y.find? e.id).map (·.imports) := by
  rw [records, records, h.ordered_eq, h'.ordered_eq, ← hlisted, List.map_map,
    List.map_map] at hrecords
  have hrecord := List.map_inj_left.mp hrecords e he
  have himports : (x.current e).imports = (y.current e).imports :=
    congrArg EntityRecord.imports hrecord
  rw [h.find?_eq he, h'.find?_eq (hlisted ▸ he), Option.map_some, Option.map_some, himports]

theorem imports_settled (root : String) (hapart : PathsApart (files ++ new))
    (hrecords : (run root [files, new]).records = (run root [files ++ new]).records) :
    ∀ e ∈ extracted files, e.kind = .file →
      (e.resolved (run root [files]).resolver).resolved (run root [files ++ new]).resolver =
        e.resolved (run root [files ++ new]).resolver := by
  intro e he hkind
  obtain ⟨blocks, hy, hblocks⟩ := holds_steps root hapart
  obtain ⟨blocks', hz, hblocks'⟩ := holds_run_singleton root hapart
  have hmem : e ∈ extracted (files ++ new) := by
    rw [extracted_append]
    exact List.mem_append_left _ he
  have hlisted : entitiesOf blocks = entitiesOf blocks' :=
    hblocks.entitiesOf_eq.trans hblocks'.entitiesOf_eq.symm
  have himports := hy.imports_of_records_eq hz hlisted hrecords (hblocks.entitiesOf_eq ▸ hmem)
  have hsteps : ((run root [files, new]).find? e.id).map Entity.uncounted =
      (((run root [files]).readied new).find? e.id).map Entity.uncounted :=
    ((holds_first root hapart).add_keeps hapart).2.2 e.id
  obtain ⟨honce, htwice⟩ := Entity.readied_readied (run root [files]).resolver
    (run root [files ++ new]).resolver hkind
  rw [← map_view_uncounted fun _ => rfl, hsteps, find?_steps_old root hapart he, htwice,
    ← map_view_uncounted (o := (run root [files ++ new]).find? e.id) fun _ => rfl,
    (run_keeps root hapart).2.2, find?_readied_empty root hapart hmem, honce] at himports
  exact congrArg (fun imports => { e with imports := imports }) (Option.some.inj himports)

/-- Files given in two steps are listed with the same ids and definitions as files given at once.
The records and links are the same exactly when more files leave alone what the first ones say. -/
theorem run_append_eq_iff (root : String) (files new : List SourceFile)
    (hpaths : ((files ++ new).map (·.path)).Nodup)
    (hcolons : ∀ f ∈ files ++ new, colonFree f.path) :
    (run root [files, new]).records.map (·.id) = (run root [files ++ new]).records.map (·.id) ∧
      (run root [files, new]).definesLinks = (run root [files ++ new]).definesLinks ∧
      ((run root [files, new]).records = (run root [files ++ new]).records ∧
          (run root [files, new]).links = (run root [files ++ new]).links ↔
        Settled root files new) := by
  have hapart : PathsApart (files ++ new) := ⟨hpaths, hcolons⟩
  obtain ⟨blocks, hy, hblocks⟩ := holds_steps root hapart
  obtain ⟨blocks', hz, hblocks'⟩ := holds_run_singleton root hapart
  have hlisted : entitiesOf blocks = entitiesOf blocks' :=
    hblocks.entitiesOf_eq.trans hblocks'.entitiesOf_eq.symm
  have hdefines : (run root [files, new]).definesLinks = (run root [files ++ new]).definesLinks := by
    rw [hy.definesLinks_eq, hz.definesLinks_eq, hlisted]
  refine ⟨?_, hdefines, ?_, ?_⟩
  · rw [hy.map_id_records, hz.map_id_records, idsOf, idsOf, hlisted]
  · rintro ⟨hrecords, hlinks⟩
    refine ⟨imports_settled root hapart hrecords, ?_⟩
    rw [links, links, hdefines] at hlinks
    have hcalls := List.append_cancel_left hlinks
    obtain ⟨inner, hreadied, -⟩ := (holds_first root hapart).readied new hapart
    rw [← Stores.callsLinks_pairs (run root [files ++ new]), ← hcalls, Stores.callsLinks_pairs,
      usePairs, ← (readied_others (run root [files]) new).2]
    exact hreadied.usePairs_subset_addUses
  · intro hsettled
    obtain ⟨huses, hfind⟩ := hsettled.run_eq hapart
    constructor
    · rw [hy.records_eq hblocks, hz.records_eq hblocks', recordsOf_eq hfind]
    · rw [links, links, hdefines, callsLinks, callsLinks, huses]

/-! ## Modules that stand nearer -/

theorem resolver_run (root : String) (hapart : PathsApart files) :
    (run root [files]).resolver =
      .ofFiles root (((files.filterMap (·.extract?)).filterMap List.head?).map (·.id)) := by
  rw [resolver, (run_keeps root hapart).1, (holds_run_singleton root hapart).files_eq]

theorem extract?_of_survey {f : SourceFile} {language : Language} {survey : Survey}
    (hlanguage : Language.ofPath? f.path = some language)
    (hsurvey : Survey.of language f.content = survey) :
    f.extract? = some (Extraction.entities language f.path f.content survey) := by
  rw [SourceFile.extract?, extract?, hlanguage, Option.map_some, hsurvey]

theorem extract?_emptyModule (path : String) (hlanguage : Language.ofPath? path = some .python) :
    (SourceFile.mk path "").extract? = some (Extraction.entities .python path "" ⟨[], [], []⟩) :=
  extract?_of_survey hlanguage survey_empty

def emptyModule : List SourceFile := [⟨"/a.py", ""⟩]

/-- More files leave alone what an empty module says, as it says nothing. -/
theorem settled_emptyModule (new : List SourceFile) : Settled "/" emptyModule new := by
  have hextract := extract?_emptyModule "/a.py" (by decide +kernel)
  have hentities : extracted emptyModule =
      Extraction.entities .python "/a.py" "" ⟨[], [], []⟩ := by
    rw [extracted, emptyModule, List.filterMap_cons_some hextract]
    exact List.append_nil _
  constructor
  · rw [hentities]
    intro e he _
    have hnone : ∀ e ∈ Extraction.entities .python "/a.py" "" ⟨[], [], []⟩, e.imports = [] := by
      decide +kernel
    rw [Entity.resolved, Entity.resolved, Entity.resolved, hnone e he]
    rfl
  · -- a use would lead from the module to something else
    have hapart : PathsApart emptyModule := ⟨by decide, by decide⟩
    obtain ⟨blocks, hstores, hblocks⟩ := holds_run_singleton "/" hapart
    have hids : idsOf blocks = ["/a.py"] := by
      rw [idsOf, hblocks.entitiesOf_eq, hentities]
      decide +kernel
    intro u hu
    have hsource := hstores.uses.source_mem u hu
    have htarget := hstores.uses.target_mem u hu
    rw [hids, List.mem_singleton] at hsource htarget
    exact absurd (hsource.trans htarget.symm) (hstores.uses.irrefl u hu)

/-- A file that imports from the first module. -/
def importingModule : List SourceFile := [⟨"/b.py", "from a import g\n\ng()\n"⟩]

theorem run_append_eq_iff_emptyModule :
    ((emptyModule ++ importingModule).map (·.path)).Nodup ∧
      (∀ f ∈ emptyModule ++ importingModule, colonFree f.path) ∧
      (run "/" [emptyModule, importingModule]).records =
        (run "/" [emptyModule ++ importingModule]).records ∧
      (run "/" [emptyModule, importingModule]).links =
        (run "/" [emptyModule ++ importingModule]).links :=
  ⟨by decide, by decide,
    (run_append_eq_iff "/" emptyModule importingModule (by decide) (by decide)).2.2.mpr
      (settled_emptyModule importingModule)⟩

/-- A file that imports from a folder at the root, and the module there. -/
def farModule : List SourceFile := [⟨"/p/m.py", "from q import x\n"⟩, ⟨"/q/x.py", ""⟩]

/-- A module of the same name in a folder beside the file. -/
def nearModule : List SourceFile := [⟨"/p/q/x.py", ""⟩]

def importFromFolder : Import.Statement :=
  ⟨"q", "", [⟨"x", "", ""⟩], "", "from q import x", ⟨0, 0⟩, ⟨0, 15⟩, false⟩

theorem survey_importFromFolder :
    Survey.of .python "from q import x\n" = ⟨[], [], [importFromFolder]⟩ := by
  have hlanguage : (Syntax.parse .python "from q import x\n").language = .python := rfl
  simp only [Survey.of, Survey.definitionsOf, Survey.exportsOf, Import.statements, Capture.all,
    Capture.labelled, hlanguage, Catalogue.queries_eq_readChars?, Catalogue.groups,
    Catalogue.python, Catalogue.Python.imports, Catalogue.Python.definitions,
    Catalogue.Python.globals, List.map_cons, List.map_nil]
  repeat rw [String.toList_ofList]
  decide +kernel

/-- A module that stands nearer takes the name but not the folder of an import that was resolved
before. -/
theorem not_forall_run_append_eq :
    ¬ ∀ (root : String) (files new : List SourceFile), ((files ++ new).map (·.path)).Nodup →
      (∀ f ∈ files ++ new, colonFree f.path) →
      (run root [files, new]).records = (run root [files ++ new]).records ∧
        (run root [files, new]).links = (run root [files ++ new]).links := by
  intro h
  have hapart : PathsApart (farModule ++ nearModule) := ⟨by decide, by decide⟩
  have hrecords := (h "/" farModule nearModule hapart.nodup hapart.colonFree).1
  have hlanguage : Language.ofPath? "/p/m.py" = some .python := by decide +kernel
  have hm := extract?_of_survey (f := ⟨"/p/m.py", "from q import x\n"⟩) hlanguage
    survey_importFromFolder
  have hfar := extract?_emptyModule "/q/x.py" (by decide +kernel)
  have hnear := extract?_emptyModule "/p/q/x.py" (by decide +kernel)
  have hfirst : (run "/" [farModule]).resolver = ⟨"/", ["/p/m.py", "/q/x.py"]⟩ := by
    rw [resolver_run "/" (hapart.sublist (List.sublist_append_left _ _)), farModule,
      List.filterMap_cons_some hm, List.filterMap_cons_some hfar]
    decide +kernel
  have hboth : (run "/" [farModule ++ nearModule]).resolver =
      ⟨"/", ["/p/m.py", "/p/q/x.py", "/q/x.py"]⟩ := by
    rw [resolver_run "/" hapart, farModule, nearModule, List.cons_append, List.cons_append,
      List.nil_append, List.filterMap_cons_some hm, List.filterMap_cons_some hfar,
      List.filterMap_cons_some hnear]
    decide +kernel
  have hfile : ∃ e ∈ Extraction.entities .python "/p/m.py" "from q import x\n"
      ⟨[], [], [importFromFolder]⟩, e.kind = .file ∧ e.id = "/p/m.py" ∧ e.language = .python ∧
        e.imports = [importFromFolder] := by decide +kernel
  obtain ⟨e, he, hkind, hid, hpython, himports⟩ := hfile
  have hmem : e ∈ extracted farModule := by
    rw [extracted, farModule, List.filterMap_cons_some hm]
    exact List.mem_append_left _ he
  have hsettled := congrArg Entity.imports (imports_settled "/" hapart hrecords e hmem hkind)
  simp only [Entity.resolved, hid, hpython, himports, hfirst, hboth] at hsettled
  exact absurd hsettled (by decide +kernel)

end Index
end CodeAtlas

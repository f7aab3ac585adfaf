import CodeAtlas.Proofs.Index.Batch

/-!
# Files that do not matter

What a file uses depends on the files that it leads to and on no others.  Imports are resolved by
looking at paths, so that editing a file changes neither the list of files nor where an import
leads.  The names in scope of another file, and with them the uses that are found there, change only
if that file leads to the edited one; and what is found is recorded whatever the edited file holds,
as only the targets have to be indexed.
-/

namespace CodeAtlas

/-- The second list has the same files in the same places, but for the content of one of them. -/
def EditedAt (path : String) : List SourceFile → List SourceFile → Prop :=
  List.Forall₂ fun f f' => f'.path = f.path ∧ (f.path ≠ path → f' = f)

namespace EditedAt

variable {path : String} {files files' : List SourceFile}

theorem paths_eq (h : EditedAt path files files') : files'.map (·.path) = files.map (·.path) := by
  rw [← List.forall₂_eq_eq_eq, List.forall₂_map_left_iff, List.forall₂_map_right_iff]
  exact h.flip.imp fun _ _ hf => hf.1

theorem symm (h : EditedAt path files files') : EditedAt path files' files := by
  refine h.flip.imp ?_
  rintro f' f ⟨hpath, hsame⟩
  exact ⟨hpath.symm, fun hne => (hsame (hpath ▸ hne)).symm⟩

/-- Files at other paths stay as they are. -/
theorem mem_of_ne (h : EditedAt path files files') {f : SourceFile} (hf : f ∈ files)
    (hne : f.path ≠ path) : f ∈ files' := by
  obtain ⟨f', hf', -, hsame⟩ := Related.exists_of_mem h.flip hf
  exact hsame hne ▸ hf'

theorem pathsApart (h : EditedAt path files files') (hapart : PathsApart files) :
    PathsApart files' := by
  refine ⟨h.paths_eq ▸ hapart.nodup, ?_⟩
  intro f' hf'
  obtain ⟨f, hf, hpath⟩ := List.mem_map.mp (h.paths_eq ▸ List.mem_map_of_mem hf' :
    f'.path ∈ files.map (·.path))
  exact hpath ▸ hapart.colonFree f hf

end EditedAt

namespace Index

variable {x y : Index} {blocks blocks' : List FileBlock} {S : String → Prop} {b : FileBlock}
  {d : Entity} {files files' : List SourceFile} {path : String}

/-! ## Known files -/

theorem head?_extract? (f : SourceFile) :
    (f.extract?.bind List.head?).map (·.id) = (Language.ofPath? f.path).map fun _ => f.path := by
  rw [SourceFile.extract?, CodeAtlas.extract?]
  cases Language.ofPath? f.path with
  | none => rfl
  | some l =>
      obtain ⟨file, below, hes, -, hid, -, -⟩ := Extraction.fileTree_entities l f.path f.content
        (s := Survey.of l f.content) fun d hd => Survey.kind_ne_file_of_mem hd
      rw [Option.map_some, Option.bind_some, hes, List.head?_cons, Option.map_some, hid,
        Option.map_some]

/-- An index knows the files that have a language, whatever they hold. -/
theorem Holds.files_eq_filterMap (h : x.Holds files) :
    x.files = (files.map (·.path)).filterMap fun p => (Language.ofPath? p).map fun _ => p := by
  rw [h.files_eq, List.filterMap_filterMap, List.map_filterMap, List.filterMap_map]
  exact List.filterMap_congr fun f _ => head?_extract? f

theorem resolver_run_of_edited (h : EditedAt path files files') (root : String)
    (hapart : PathsApart files) : (run root [files']).resolver = (run root [files]).resolver := by
  have hapart' := h.pathsApart hapart
  rw [resolver, resolver, (run_keeps root hapart).1, (run_keeps root hapart').1,
    (holds_run_singleton root hapart).files_eq_filterMap,
    (holds_run_singleton root hapart').files_eq_filterMap, h.paths_eq]

/-! ## What is found in one file -/

theorem foundLines?_eq_some_iff {found : List (String × Table (List Nat))}
    (hnodup : (found.map Prod.fst).Nodup) {s t : String} {lines : List Nat} :
    foundLines? found s t = some lines ↔
      ∃ table, (s, table) ∈ found ∧ table.find? t = some lines := by
  rw [foundLines?, Option.bind_eq_some_iff]
  constructor
  · rintro ⟨table, hfind, hlines⟩
    exact ⟨table, Table.mem_entries_of_find? (t := ⟨found⟩) hfind, hlines⟩
  · rintro ⟨table, hmem, hlines⟩
    exact ⟨table, Table.find?_of_mem (t := ⟨found⟩) hnodup hmem, hlines⟩

/-- An id belongs to one file. -/
theorem Stores.block_unique (h : Stores x blocks) {b' : FileBlock} (hb : b ∈ blocks)
    (hb' : b' ∈ blocks) {id : String} (hid : id ∈ b.entities.map (·.id))
    (hid' : id ∈ b'.entities.map (·.id)) : b = b' := by
  by_contra hne
  have hnodup := h.nodup
  rw [idsOf_eq_flatMap, List.nodup_flatMap] at hnodup
  have : Std.Symm (Function.onFun List.Disjoint fun c : FileBlock => c.entities.map (·.id)) :=
    ⟨fun _ _ hdisjoint => hdisjoint.symm⟩
  exact hnodup.2.forall hb hb' hne hid hid'

/-- What an entity uses is looked for in its own file. -/
theorem Stores.mem_foundUses_iff (h : Stores x blocks) (hb : b ∈ blocks) (hd : d ∈ b.entities)
    (table : Table (List Nat)) :
    (d.id, table) ∈ x.foundUses ↔ (d.id, table) ∈ x.usesInFile b.file.id := by
  rw [foundUses, h.files, List.flatMap_map, List.mem_flatMap]
  constructor
  · rintro ⟨b', hb', hmem⟩
    have hid : d.id ∈ b'.entities.map (·.id) :=
      (h.sublist_usesInFile hb').subset (List.mem_map_of_mem hmem)
    rwa [h.block_unique hb hb' (List.mem_map_of_mem hd) hid]
  · exact fun hmem => ⟨b, hb, hmem⟩

theorem Stores.foundLines?_eq (h : Stores x blocks) (hb : b ∈ blocks) (hd : d ∈ b.entities)
    (t : String) :
    foundLines? x.foundUses d.id t = foundLines? (x.usesInFile b.file.id) d.id t := by
  have hnodup : ((x.usesInFile b.file.id).map Prod.fst).Nodup :=
    b.tree.nodup_ids.sublist (h.sublist_usesInFile hb)
  ext lines
  rw [foundLines?_eq_some_iff h.nodup_found, foundLines?_eq_some_iff hnodup]
  simp only [h.mem_foundUses_iff hb hd]

namespace Alike

variable (h : Alike x y blocks blocks' S) (hb : b ∈ blocks) (hS : S b.file.id)
  (hleads : ∀ id, (x.current b.file).LeadsTo x.resolver id → S id)

include h hb hS hleads

/-- In a file that leads only to files that are stored alike, the same is found. -/
theorem foundLines?_of_leads (hd : d ∈ b.entities) (t : String) :
    foundLines? y.foundUses d.id t = foundLines? x.foundUses d.id t := by
  have hb' := h.mem b hb hS
  have huses := h.usesInFile ⟨b, hb, hS, b.file, b.file_mem, rfl, rfl⟩
    fun id hid => hleads id hid.leadsTo
  rw [h.left.id_current (mem_entitiesOf hb b.file_mem),
    h.right.id_current (mem_entitiesOf hb' b.file_mem)] at huses
  rw [h.left.foundLines?_eq hb hd, h.right.foundLines?_eq hb' hd, huses]

/-- What is found there can be recorded in both indices or in none. -/
theorem admits_of_leads {t : String} {lines : List Nat}
    (hfound : foundLines? x.foundUses d.id t = some lines) (hd : d ∈ b.entities) :
    y.Admits d.id t ↔ x.Admits d.id t := by
  rw [h.left.foundLines?_eq hb hd] at hfound
  obtain ⟨table, hmem, hkey⟩ := mem_pairsIn.mp (mem_pairsIn_of_foundLines? hfound)
  rw [← h.left.id_current (mem_entitiesOf hb b.file_mem)] at hmem
  obtain ⟨-, htargets⟩ := h.mem_usesInFile ⟨b, hb, hS, b.file, b.file_mem, rfl, rfl⟩
    (fun id hid => hleads id hid.leadsTo) hmem
  obtain ⟨e, e', htwins, rfl⟩ := htargets t hkey
  obtain ⟨hleft, hright⟩ := h.find?_eq htwins
  have hcontains : x.entities.contains e.id = true :=
    Option.isSome_iff_exists.mpr ⟨e, hleft⟩
  have hcontains' : y.entities.contains e.id = true :=
    Option.isSome_iff_exists.mpr ⟨e', h.id_eq htwins ▸ hright⟩
  rw [Admits, Admits, hcontains, hcontains']

/-- The entities of such a file are known to use the same afterwards, if they were before. -/
theorem lines?_addUses_of_leads (hd : d ∈ b.entities) {t : String}
    (hold : y.lines? d.id t = x.lines? d.id t) :
    (y.addUses y.foundUses).1.lines? d.id t = (x.addUses x.foundUses).1.lines? d.id t := by
  rw [h.left.lines?_addUses_found, h.right.lines?_addUses_found, hold,
    h.foundLines?_of_leads hb hS hleads hd]
  cases hfound : foundLines? x.foundUses d.id t with
  | none => simp only [Option.none_or, ite_self]
  | some lines => simp only [h.admits_of_leads hb hS hleads hfound hd]

end Alike

/-! ## Editing a file -/

/-- A stored entity comes from the block of its file. -/
theorem Stores.exists_block_of_find? (h : Stores x blocks) (hblocks : BlocksOf files blocks)
    (hcolons : ∀ f ∈ files, colonFree f.path) {id : String} {e : Entity}
    (he : x.find? id = some e) :
    ∃ b ∈ blocks, ∃ d ∈ b.entities, d.id = id ∧ b.file.id = e.filePath := by
  have hid : id ∈ idsOf blocks := h.contains_iff.mp (Option.isSome_iff_exists.mpr ⟨e, he⟩)
  obtain ⟨d, hd, rfl⟩ := List.mem_map.mp hid
  obtain ⟨b, hb, hd⟩ := List.mem_flatMap.mp hd
  rw [h.find?_eq (mem_entitiesOf hb hd)] at he
  refine ⟨b, hb, d, hd, rfl, ?_⟩
  rw [← Option.some.inj he, h.filePath_current hblocks hcolons hb hd]

section Edited

variable (root : String) (hedit : EditedAt path files files') (hapart : PathsApart files)

include hedit hapart

theorem mem_blocks_of_edited (hblocks : BlocksOf files blocks) (hblocks' : BlocksOf files' blocks')
    (hb : b ∈ blocks) (hne : b.file.id ≠ path) : b ∈ blocks' := by
  obtain ⟨f, hf, hextract, hid, -⟩ := hblocks.exists_file hapart.colonFree hb
  have hmem : b.entities ∈ files'.filterMap (·.extract?) :=
    List.mem_filterMap.mpr ⟨f, hedit.mem_of_ne hf (hid ▸ hne), hextract⟩
  rw [← hblocks'.entities] at hmem
  exact (List.mem_map_of_injective FileBlock.entities_injective).mp hmem

/-- Before uses are recorded, the other files are stored alike. -/
theorem alike_of_edited (hx : Stores ((empty root).readied files) blocks)
    (hy : Stores ((empty root).readied files') blocks') (hblocks : BlocksOf files blocks)
    (hblocks' : BlocksOf files' blocks') :
    Alike ((empty root).readied files) ((empty root).readied files') blocks blocks' (· ≠ path) := by
  have hapart' := hedit.pathsApart hapart
  have hresolver := resolver_run_of_edited hedit root hapart
  refine ⟨hx, hy, ?_, fun b hb hne => mem_blocks_of_edited hedit hapart hblocks hblocks' hb hne, ?_⟩
  · rw [← (run_keeps root hapart).2.1, ← (run_keeps root hapart').2.1, hresolver]
  · intro b hb hne d hd
    have hmem := mem_entitiesOf hb hd
    have hmem' := mem_entitiesOf (mem_blocks_of_edited hedit hapart hblocks hblocks' hb hne) hd
    apply hx.uncounted_current hy hmem hmem'
    rw [find?_readied_empty root hapart (hblocks.entitiesOf_eq ▸ hmem),
      find?_readied_empty root hapart' (hblocks'.entitiesOf_eq ▸ hmem'), hresolver]

end Edited

/-- Editing a file leaves alone what the entities of another file are and use, if that file does not
lead to the edited one. -/
theorem usesOf?_eq_of_not_leadsTo (root : String) (files files' : List SourceFile) (path : String)
    (hedit : EditedAt path files files') (hpaths : (files.map (·.path)).Nodup)
    (hcolons : ∀ f ∈ files, colonFree f.path) (file : Entity)
    (hfile : (run root [files]).find? file.id = some file) (hne : file.id ≠ path)
    (hleads : ¬ file.LeadsTo (run root [files]).resolver path) :
    ∀ id e, ((run root [files]).find? id = some e ∨ (run root [files']).find? id = some e) →
      e.filePath = file.id →
      ((run root [files']).find? id).map Entity.uncounted =
          ((run root [files]).find? id).map Entity.uncounted ∧
        (run root [files']).usesOf? id = (run root [files]).usesOf? id := by
  intro id e he hpath
  have hapart : PathsApart files := ⟨hpaths, hcolons⟩
  have hapart' := hedit.pathsApart hapart
  obtain ⟨blocks, hx, hblocks⟩ := (holds_empty root).readied files hapart
  obtain ⟨blocks', hy, hblocks'⟩ := (holds_empty root).readied files' hapart'
  have halike := alike_of_edited root hedit hapart hx hy hblocks hblocks'
  obtain ⟨b, hb, d, hd, rfl, hown⟩ : ∃ b ∈ blocks, ∃ d ∈ b.entities, d.id = id ∧
      b.file.id = file.id := by
    rcases he with he | he
    · obtain ⟨b, hb, d, hd, hid, hown⟩ :=
        (hx.addUses_found).exists_block_of_find? hblocks hcolons he
      exact ⟨b, hb, d, hd, hid, hown.trans hpath⟩
    · obtain ⟨b, hb, d, hd, hid, hown⟩ :=
        (hy.addUses_found).exists_block_of_find? hblocks' hapart'.colonFree he
      refine ⟨b, ?_, d, hd, hid, hown.trans hpath⟩
      exact mem_blocks_of_edited hedit.symm hapart' hblocks' hblocks hb
        (hown.trans hpath ▸ hne)
  have hS : b.file.id ≠ path := hown ▸ hne
  have hb' := halike.mem b hb hS
  obtain ⟨-, hresolver, hkeeps⟩ := run_keeps root hapart
  obtain ⟨-, -, hkeeps'⟩ := run_keeps root hapart'
  have hleads' : ∀ g, (((empty root).readied files).current b.file).LeadsTo
      ((empty root).readied files).resolver g → g ≠ path := by
    rintro g hg rfl
    have hmem := mem_entitiesOf hb b.file_mem
    have hsame := hkeeps b.file.id
    rw [hown, hfile, ← hown, hx.find?_eq hmem] at hsame
    rw [← Entity.leadsTo_uncounted, ← Option.some.inj hsame, Entity.leadsTo_uncounted,
      ← hresolver] at hg
    exact hleads hg
  constructor
  · rw [hkeeps, hkeeps', hx.find?_eq (mem_entitiesOf hb hd), hy.find?_eq (mem_entitiesOf hb' hd),
      Option.map_some, Option.map_some, halike.current b hb hS d hd]
  · have hfilled : ∀ fs, ((empty root).readied fs).UsesFilled := fun fs =>
      (usesFilled_empty root).of_uses_eq (readied_others _ fs).2
    refine usesOf?_eq_of_lines? hy.addUses_found.uses hx.addUses_found.uses
      ((hfilled files').addUses _) ((hfilled files).addUses _) fun t => ?_
    apply halike.lines?_addUses_of_leads hb hS hleads' hd
    rw [lines?_readied_empty, lines?_readied_empty]

/-! ## A file beside an import -/

theorem exists_find?_run (root : String) (hapart : PathsApart files) {e : Entity}
    (he : e ∈ extracted files) :
    ∃ e', (run root [files]).find? e.id = some e' ∧
      e'.uncounted = (e.readied (run root [files]).resolver).uncounted := by
  have hkeeps := (run_keeps root hapart).2.2 e.id
  rw [find?_readied_empty root hapart he, Option.map_some] at hkeeps
  exact Option.map_eq_some_iff.mp hkeeps

/-- A file that neither of the others imports. -/
def besideImport (content : String) : List SourceFile :=
  importingFiles ++ [⟨"/c.py", content⟩]

def importedName : Import.Statement :=
  ⟨"a", "", [⟨"g", "", ""⟩], "", "from a import g", ⟨0, 0⟩, ⟨0, 15⟩, false⟩

theorem survey_importedName :
    Survey.of .python "from a import g\n\ng()\n" = ⟨[], [], [importedName]⟩ := by
  have hlanguage : (Syntax.parse .python "from a import g\n\ng()\n").language = .python := rfl
  simp only [Survey.of, Survey.definitionsOf, Survey.exportsOf, Import.statements, Capture.all,
    Capture.labelled, hlanguage, Catalogue.queries_eq_readChars?, Catalogue.groups,
    Catalogue.python, Catalogue.Python.imports, Catalogue.Python.definitions,
    Catalogue.Python.globals, List.map_cons, List.map_nil]
  repeat rw [String.toList_ofList]
  decide +kernel

theorem resolver_besideImport :
    (run "/" [besideImport ""]).resolver = ⟨"/", ["/a.py", "/b.py", "/c.py"]⟩ := by
  have hapart : PathsApart (besideImport "") := ⟨by decide, by decide⟩
  rw [resolver, (run_keeps "/" hapart).1, (holds_run_singleton "/" hapart).files_eq_filterMap]
  decide +kernel

/-- The import leads to the file where the name is defined and to no other. -/
theorem not_leadsTo_besideImport {file : Entity}
    (hlanguage : file.language = .python)
    (himports : file.imports = [{ importedName with path := "/a" }]) :
    ¬ file.LeadsTo ⟨"/", ["/a.py", "/b.py", "/c.py"]⟩ "/c.py" := by
  rintro (⟨s, hs, hleads⟩ | ⟨hjava, -⟩)
  · rw [himports, List.mem_singleton] at hs
    rcases hleads with ⟨-, hpath⟩ | ⟨hwhole, -⟩ | ⟨n, hn, hsubpath, -⟩
    · subst hs
      exact absurd hpath (by decide +kernel)
    · subst hs
      rw [hlanguage] at hwhole
      exact absurd hwhole (by decide)
    · subst hs
      rw [List.mem_singleton.mp hn] at hsubpath
      exact hsubpath rfl
  · rw [hlanguage] at hjava
    exact absurd hjava (by decide)

theorem usesOf?_eq_of_not_leadsTo_besideImport :
    ∃ file : Entity, (run "/" [besideImport ""]).find? file.id = some file ∧ file.id = "/b.py" ∧
      ¬ file.LeadsTo (run "/" [besideImport ""]).resolver "/c.py" ∧
      ∀ content id e, (run "/" [besideImport ""]).find? id = some e → e.filePath = "/b.py" →
        (run "/" [besideImport content]).usesOf? id = (run "/" [besideImport ""]).usesOf? id := by
  have hapart : PathsApart (besideImport "") := ⟨by decide, by decide⟩
  have hextract := extract?_of_survey (f := ⟨"/b.py", "from a import g\n\ng()\n"⟩)
    (by decide +kernel) survey_importedName
  obtain ⟨e, he, hkind, hid, hlanguage, himports⟩ : ∃ e ∈ Extraction.entities .python "/b.py"
      "from a import g\n\ng()\n" ⟨[], [], [importedName]⟩, e.kind = .file ∧ e.id = "/b.py" ∧
        e.language = .python ∧ e.imports = [importedName] := by decide +kernel
  have hmem : e ∈ extracted (besideImport "") := by
    rw [extracted_eq_flatMap]
    exact List.mem_flatMap.mpr ⟨_, List.mem_cons_of_mem _ List.mem_cons_self, by rwa [hextract]⟩
  obtain ⟨file, hfile, hsame⟩ := exists_find?_run "/" hapart hmem
  rw [resolver_besideImport, Entity.readied, if_pos hkind] at hsame
  have hid' : file.id = "/b.py" := (congrArg Entity.id hsame).trans hid
  have himports' : file.imports = [{ importedName with path := "/a" }] := by
    have hresolved := congrArg Entity.imports hsame
    simp only [Entity.resolved, Entity.imports_uncounted, hid, hlanguage, himports] at hresolved
    exact hresolved.trans (by decide +kernel)
  have hnot : ¬ file.LeadsTo (run "/" [besideImport ""]).resolver "/c.py" := by
    rw [resolver_besideImport]
    exact not_leadsTo_besideImport ((congrArg Entity.language hsame).trans hlanguage) himports'
  rw [hid, ← hid'] at hfile
  refine ⟨file, hfile, hid', hnot, ?_⟩
  intro content id e he hpath
  have hedit : EditedAt "/c.py" (besideImport "") (besideImport content) :=
    .cons ⟨rfl, fun _ => rfl⟩ (.cons ⟨rfl, fun _ => rfl⟩
      (.cons ⟨rfl, fun hne => absurd rfl hne⟩ .nil))
  exact (usesOf?_eq_of_not_leadsTo "/" (besideImport "") (besideImport content) "/c.py" hedit
    (by decide) (by decide) file hfile (by rw [hid']; decide) hnot id e (Or.inl he)
    (hpath.trans hid'.symm)).2

end Index
end CodeAtlas

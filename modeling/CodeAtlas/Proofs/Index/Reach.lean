import CodeAtlas.Proofs.Index.Sight
import CodeAtlas.Proofs.Index.Stages

/-!
# Where uses lead

Uses are looked for with the names in scope of a file, and these stand for entities of the file and
of the files that it leads to.  Recording adds no other pair.  So a use that crosses from one file
to another goes along an import of the first one, or stays in its package.
-/

namespace CodeAtlas
namespace Index

variable {x : Index} {blocks : List FileBlock} {files : List SourceFile}

/-- The entities of a block belong to the file of the block. -/
theorem BlocksOf.exists_file (h : BlocksOf files blocks) (hfree : ∀ f ∈ files, colonFree f.path)
    {b : FileBlock} (hb : b ∈ blocks) :
    ∃ f ∈ files, f.extract? = some b.entities ∧ b.file.id = f.path ∧
      ∀ e ∈ b.entities, e.filePath = f.path := by
  have hmem : b.entities ∈ files.filterMap (·.extract?) := h.entities ▸ List.mem_map_of_mem hb
  obtain ⟨f, hf, hextract⟩ := List.mem_filterMap.mp hmem
  obtain ⟨b', hentities, hid, hpaths⟩ := SourceFile.exists_block (hfree f hf) hextract
  have hfile : b'.file = b.file := (List.cons.inj hentities).1
  exact ⟨f, hf, hextract, hfile ▸ hid, hpaths⟩

/-- A block holds what was extracted from a file in the language of its path. -/
theorem BlocksOf.exists_extraction (h : BlocksOf files blocks)
    (hfree : ∀ f ∈ files, colonFree f.path) {b : FileBlock} (hb : b ∈ blocks) :
    ∃ f ∈ files, ∃ l, Language.ofPath? f.path = some l ∧ b.file.id = f.path ∧
      b.entities = Extraction.entities l f.path f.content (Survey.of l f.content) ∧
      b.file.language = l ∧ b.file.imports = (Survey.of l f.content).imports := by
  obtain ⟨f, hf, hextract, hid, -⟩ := h.exists_file hfree hb
  rw [SourceFile.extract?, CodeAtlas.extract?, Option.map_eq_some_iff] at hextract
  obtain ⟨l, hlanguage, hentities⟩ := hextract
  obtain ⟨file, below, hes, -, -, ⟨id, n, hbecomes, -⟩, -⟩ :=
    Extraction.fileTree_entities l f.path f.content (s := Survey.of l f.content)
      fun d hd => Survey.kind_ne_file_of_mem hd
  obtain rfl : b.file = file := (List.cons.inj (hentities.symm.trans hes)).1
  exact ⟨f, hf, l, hlanguage, hid, hentities.symm, hbecomes.language, hbecomes.imports⟩

theorem Stores.filePath_current (h : Stores x blocks) (hblocks : BlocksOf files blocks)
    (hfree : ∀ f ∈ files, colonFree f.path) {b : FileBlock} (hb : b ∈ blocks) {e : Entity}
    (he : e ∈ b.entities) : (x.current e).filePath = b.file.id := by
  obtain ⟨f, -, -, hfile, hpath⟩ := hblocks.exists_file hfree hb
  rw [h.current_keeps (mem_entitiesOf hb he) (·.filePath) fun _ => rfl, hpath e he, hfile]

/-! ## Found and recorded pairs -/

/-- What is found in a file are uses of its entities that lead to it or to a file that it sees. -/
theorem Stores.exists_sees_of_found (h : Stores x blocks) {source target : String}
    (hpair : (source, target) ∈ pairsIn x.foundUses) :
    ∃ b ∈ blocks, ∃ b' ∈ blocks,
      source ∈ b.entities.map (·.id) ∧ target ∈ b'.entities.map (·.id) ∧
        (b'.file.id = b.file.id ∨ (x.current b.file).Sees x.resolver b'.file.id) := by
  obtain ⟨t, ht, htarget⟩ := mem_pairsIn.mp hpair
  obtain ⟨id, hid, ht⟩ := List.mem_flatMap.mp ht
  rw [h.files] at hid
  obtain ⟨b, hb, rfl⟩ := List.mem_map.mp hid
  have hfile := mem_entitiesOf hb b.file_mem
  let S : String → Prop := fun g =>
    g = b.file.id ∨ (x.current b.file).Sees x.resolver g
  have halike : Alike x x blocks blocks S := .refl h S
  have htwins : Twins x x blocks S (x.current b.file) (x.current b.file) :=
    ⟨b, hb, Or.inl rfl, b.file, b.file_mem, rfl, rfl⟩
  rw [← h.id_current hfile] at ht
  obtain ⟨⟨d, hd, hsource⟩, htargets⟩ :=
    halike.mem_usesInFile htwins (fun g hg => Or.inr hg) ht
  obtain ⟨e, -, ⟨b', hb', hS, e', he', rfl, -⟩, hid'⟩ := htargets target htarget
  refine ⟨b, hb, b', hb', ?_, ?_, hS⟩
  · have hlisted : x.current b.file :: x.descendants (x.current b.file).id =
        b.entities.map x.current := by
      rw [h.id_current hfile, h.descendants_eq hb]
      rfl
    rw [hlisted] at hd
    obtain ⟨c, hc, rfl⟩ := List.mem_map.mp hd
    have hsource' : source = c.id := hsource.trans (h.id_current (mem_entitiesOf hb hc))
    exact hsource' ▸ List.mem_map_of_mem hc
  · rw [← hid', h.id_current (mem_entitiesOf hb' he')]
    exact List.mem_map_of_mem he'

theorem Stores.exists_leads_of_found (h : Stores x blocks) {source target : String}
    (hpair : (source, target) ∈ pairsIn x.foundUses) :
    ∃ b ∈ blocks, ∃ b' ∈ blocks,
      source ∈ b.entities.map (·.id) ∧ target ∈ b'.entities.map (·.id) ∧
        (b'.file.id = b.file.id ∨ (x.current b.file).LeadsTo x.resolver b'.file.id) := by
  obtain ⟨b, hb, b', hb', hsource, htarget, hsees⟩ := h.exists_sees_of_found hpair
  exact ⟨b, hb, b', hb', hsource, htarget, hsees.imp_right Entity.Sees.leadsTo⟩

/-- What is found was looked up among the names in scope of the file. -/
theorem Stores.exists_names_of_found (h : Stores x blocks) {source target : String}
    (hpair : (source, target) ∈ pairsIn x.foundUses) :
    ∃ b ∈ blocks, source ∈ b.entities.map (·.id) ∧
      ∀ P : String → Prop, (x.namesIn b.file.id).StandFor P → P target := by
  obtain ⟨t, ht, htarget⟩ := mem_pairsIn.mp hpair
  obtain ⟨id, hid, ht⟩ := List.mem_flatMap.mp ht
  rw [h.files] at hid
  obtain ⟨b, hb, rfl⟩ := List.mem_map.mp hid
  refine ⟨b, hb, (h.sublist_usesInFile hb).subset (List.mem_map_of_mem ht), fun P hP => ?_⟩
  rw [usesInFile, h.find?_eq (mem_entitiesOf hb b.file_mem)] at ht
  obtain ⟨d, -, hd⟩ := List.mem_map.mp (List.mem_of_mem_filter ht)
  obtain ⟨-, rfl⟩ := Prod.mk.inj hd
  exact Uses.target_of_mem hP htarget

/-! ## Links of a run -/

/-- What the own text of a file uses is recorded. -/
theorem Stores.mem_usePairs_of_use (h : Stores x blocks) {id target : String} {file : Entity}
    {lines : List Nat} (hlisted : id ∈ x.files) (hfile : x.find? id = some file)
    (hid : file.id = id)
    (huse : (Uses.find ⟨file.language, x.namesIn id, file.imports⟩ file (x.childrenOf file)
      (file.parent.bind x.find?)).find? target = some lines)
    (hadmits : x.Admits id target) : (id, target) ∈ (x.addUses x.foundUses).1.usePairs := by
  have hfound : (id, Uses.find ⟨file.language, x.namesIn id, file.imports⟩ file
      (x.childrenOf file) (file.parent.bind x.find?)) ∈ x.foundUses := by
    refine List.mem_flatMap.mpr ⟨id, hlisted, ?_⟩
    simp only [usesInFile, hfile, List.map_cons, hid]
    refine List.mem_filter.mpr ⟨List.mem_cons_self, ?_⟩
    have hmem := Table.mem_entries_of_find? huse
    simpa [Table.isEmpty] using List.ne_nil_of_mem hmem
  have hlines : foundLines? x.foundUses id target = some lines :=
    Option.bind_eq_some_iff.mpr
      ⟨_, Table.find?_of_mem (t := ⟨x.foundUses⟩) h.nodup_found hfound, huse⟩
  rw [h.addUses_found.uses.mem_usePairs, h.lines?_addUses_found, if_pos hadmits, hlines]
  rfl

/-- What is captured in the own text of a file, before uses are recorded and where no variable
stands for anything, is linked afterwards. -/
theorem exists_link_of_captures (root : String) (hapart : PathsApart files)
    (hx : (empty root).readied files = x) {id target text : String} {file d : Entity}
    {language : Language} {captures : List Capture} {lines : List Nat} (hlisted : id ∈ x.files)
    (hfile : x.find? id = some file) (hid : file.id = id) (hlanguage : file.language = language)
    (hparent : file.parent = none)
    (htext : Uses.prepare ⟨language, x.namesIn id, file.imports⟩ file (x.childrenOf file) none =
      text)
    (hwindows : Uses.windows language text = [])
    (hcaptures : (Capture.all (Syntax.parse language text) .uses).flatten = captures)
    (huse : (Uses.ofCaptures ⟨language, x.namesIn id, file.imports⟩ file captures).find? target =
      some lines)
    (hd : x.find? target = some d) (hne : target ≠ id) :
    ∃ l ∈ (run root [files]).links, l.label = .calls ∧ ∃ a b : Entity,
      (run root [files]).find? l.source = some a ∧ (run root [files]).find? l.target = some b ∧
        a.uncounted = file.uncounted ∧ b.uncounted = d.uncounted := by
  have hfound : (Uses.find ⟨file.language, x.namesIn id, file.imports⟩ file (x.childrenOf file)
      (file.parent.bind x.find?)).find? target = some lines := by
    rw [hlanguage, hparent, Option.bind_none, Uses.find_of_windows_eq_nil htext hwindows, hcaptures,
      huse]
  obtain ⟨blocks, hreadied, -⟩ := (holds_empty root).readied files hapart
  have hkeeps := (run_keeps root hapart).2.2
  rw [hx] at hreadied hkeeps
  have hadmits : x.Admits id target := ⟨hne, Option.isSome_iff_exists.mpr ⟨d, hd⟩⟩
  have hpair := hreadied.mem_usePairs_of_use hlisted hfile hid hfound hadmits
  rw [← Stores.callsLinks_pairs, List.mem_map, ← hx] at hpair
  obtain ⟨l, hl, hends⟩ := hpair
  obtain ⟨rfl, rfl⟩ := Prod.mk.inj hends
  obtain ⟨a, ha, hsource⟩ := Option.map_eq_some_iff.mp
    ((hkeeps l.source).trans (congrArg (·.map Entity.uncounted) hfile))
  obtain ⟨b, hb, htarget⟩ := Option.map_eq_some_iff.mp
    ((hkeeps l.target).trans (congrArg (·.map Entity.uncounted) hd))
  exact ⟨l, List.mem_append_right _ hl, (Stores.mem_callsLinks hl).1, a, b, ha, hb, hsource, htarget⟩

/-- Nothing is known before the uses of the files are recorded, so that every link was found. -/
theorem mem_found_of_links (root : String) (hapart : PathsApart files) {l : Link}
    (hl : l ∈ (run root [files]).links) (hcalls : l.label = .calls) :
    (l.source, l.target) ∈ pairsIn ((empty root).readied files).foundUses := by
  obtain ⟨blocks, hreadied, -⟩ := (holds_empty root).readied files hapart
  have hfinal : Stores (run root [files]) blocks := hreadied.addUses_found
  have hpair : (l.source, l.target) ∈ (run root [files]).usePairs := by
    rcases List.mem_append.mp hl with hl | hl
    · rw [(hfinal.mem_definesLinks hl).1] at hcalls
      exact absurd hcalls (by decide)
    · exact (Stores.mem_callsLinks hl).2
  refine (hreadied.mem_usePairs_addUses hpair).resolve_left fun hknown => ?_
  rw [usePairs, (readied_others _ files).2] at hknown
  exact absurd hknown (by simp [pairsIn, empty, Table.empty])

/-- After a run on distinct files, every link that crosses from one file to another leads to a file
that the first one leads to. -/
theorem calls_leadsTo (root : String) (files : List SourceFile)
    (hpaths : (files.map (·.path)).Nodup) (hcolons : ∀ f ∈ files, colonFree f.path) :
    ∀ l ∈ (run root [files]).links, l.label = .calls →
      ∃ a b file : Entity, (run root [files]).find? l.source = some a ∧
        (run root [files]).find? l.target = some b ∧
        (run root [files]).find? a.filePath = some file ∧ file.kind = .file ∧
        (b.filePath ≠ a.filePath → file.LeadsTo (run root [files]).resolver b.filePath) := by
  intro l hl hcalls
  have hapart : PathsApart files := ⟨hpaths, hcolons⟩
  obtain ⟨blocks, hreadied, hblocks⟩ := (holds_empty root).readied files hapart
  have hfinal : Stores (run root [files]) blocks := hreadied.addUses_found
  obtain ⟨b, hb, b', hb', hsource, htarget, hleads⟩ :=
    hreadied.exists_leads_of_found (mem_found_of_links root hapart hl hcalls)
  obtain ⟨e, he, hsource⟩ := List.mem_map.mp hsource
  obtain ⟨e', he', htarget⟩ := List.mem_map.mp htarget
  have hfile := mem_entitiesOf hb b.file_mem
  have hpath := hfinal.filePath_current hblocks hcolons hb he
  have hpath' := hfinal.filePath_current hblocks hcolons hb' he'
  refine ⟨(run root [files]).current e, (run root [files]).current e',
    (run root [files]).current b.file, ?_, ?_, ?_, ?_, ?_⟩
  · rw [← hsource]
    exact hfinal.find?_eq (mem_entitiesOf hb he)
  · rw [← htarget]
    exact hfinal.find?_eq (mem_entitiesOf hb' he')
  · rw [hpath]
    exact hfinal.find?_eq hfile
  · rw [hfinal.current_keeps hfile (·.kind) fun _ => rfl]
    exact b.tree.kind_file
  · intro hne
    rw [hpath, hpath'] at hne
    obtain ⟨-, hresolver, hkeeps⟩ := run_keeps root hapart
    rw [hpath', hresolver, ← Entity.leadsTo_uncounted,
      hfinal.uncounted_current hreadied hfile hfile (hkeeps b.file.id), Entity.leadsTo_uncounted]
    exact hleads.resolve_left hne

/-- Two files of which one imports from the other. -/
def importingFiles : List SourceFile :=
  [⟨"/a.py", "def g(): pass\n"⟩, ⟨"/b.py", "from a import g\n\ng()\n"⟩]

theorem calls_leadsTo_importingFiles :
    (importingFiles.map (·.path)).Nodup ∧ (∀ f ∈ importingFiles, colonFree f.path) ∧
      ∀ l ∈ (run "/" [importingFiles]).links, l.label = .calls →
        ∃ a b file : Entity, (run "/" [importingFiles]).find? l.source = some a ∧
          (run "/" [importingFiles]).find? l.target = some b ∧
          (run "/" [importingFiles]).find? a.filePath = some file ∧ file.kind = .file ∧
          (b.filePath ≠ a.filePath →
            file.LeadsTo (run "/" [importingFiles]).resolver b.filePath) :=
  ⟨by decide, by decide, calls_leadsTo "/" importingFiles (by decide) (by decide)⟩

end Index
end CodeAtlas

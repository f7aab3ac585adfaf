import CodeAtlas.Proofs.Extraction.Linkage
import CodeAtlas.Proofs.Index.Batch

/-!
# Linkage

An inclusion brings whole files into scope, and of these what is exportable at their top with
everything below.  So a use that crosses from a C file to another file ends at something that other
files may see.  In C a name stands for a definition at the top of a file and for nothing inside it,
since no name has a dot in it.
-/

namespace CodeAtlas

/-- The id belongs to an exportable definition at the top of the file, or to something exportable
below it that is labelled as a part. -/
def FileBlock.Exposes (b : FileBlock) (id : String) : Prop :=
  ∃ top ∈ b.below, top.parent = some b.file.id ∧ top.exportable = true ∧
    ∃ inner, Subtrees top.id top.children inner ∧ inner.Sublist b.below ∧
      ∃ d, d.id = id ∧ (d = top ∨ d ∈ inner ∧ d.exportable = true ∧ '.' ∈ d.label.toList)

namespace Index

variable {x : Index} {blocks : List FileBlock} {files : List SourceFile} {b : FileBlock}

/-! ## What whole files bring into scope -/

theorem dot_mem_of_nameBelow? {key name : String} {e d : Entity} (hkind : e.kind ≠ .file)
    (h : nameBelow? key e d = some name) : '.' ∈ d.label.toList := by
  rw [nameBelow?, if_neg (by simpa using hkind)] at h
  split at h
  next rest hrest =>
    rw [Text.dropBeginning?] at hrest
    split at hrest
    next =>
      obtain rfl := Option.some.inj hrest
      split at h
      next hdot =>
        rw [Text.startsWith, List.isPrefixOf_iff_prefix] at hdot
        have hmem := hdot.subset (show '.' ∈ ".".toList by decide)
        rw [String.toList_ofList] at hmem
        exact List.mem_of_mem_drop hmem
      next => exact absurd h (by simp)
    next => exact absurd hrest (by simp)
  next => exact absurd h (by simp)

/-- A file that is brought into scope as a whole binds names to what it exposes. -/
theorem Stores.exposes_of_mem_labelBindings (h : Stores x blocks) (hblocks : BlocksOf files blocks)
    (hfree : ∀ f ∈ files, colonFree f.path) (hb : b ∈ blocks) {binding : String × String}
    (hbinding : binding ∈ x.labelBindings ((x.topOf b.file.id).filter (·.exportable))) :
    b.Exposes binding.2 := by
  obtain ⟨f, -, l, -, hid, hentities, -, -⟩ := hblocks.exists_extraction hfree hb
  have hbelow : b.below = (Extraction.entities l f.path f.content (Survey.of l f.content)).tail :=
    congrArg List.tail hentities
  obtain ⟨e, he, hbinding⟩ := List.mem_flatMap.mp hbinding
  obtain ⟨he, hexportable⟩ := List.mem_filter.mp he
  rw [topOf, h.find?_eq (mem_entitiesOf hb b.file_mem)] at he
  change e ∈ x.childrenOf (x.current b.file) at he
  rw [h.childrenOf_current hb b.file_mem] at he
  obtain ⟨top, htop, rfl⟩ := List.mem_map.mp he
  obtain ⟨hmem, hparent⟩ := List.mem_filter.mp htop
  have hparent : top.parent = some b.file.id := by simpa using hparent
  have htop : top ∈ b.below := by
    rcases List.mem_cons.mp hmem with rfl | hmem
    · rw [b.tree.parent_file] at hparent
      exact absurd hparent (by simp)
    · exact hmem
  have hstored := mem_entitiesOf hb hmem
  have hexportable : top.exportable = true :=
    (h.current_keeps hstored (·.exportable) fun _ => rfl).symm.trans hexportable
  obtain ⟨inner, hinner, hsub, hall⟩ := Extraction.exportable_below
    (fun d hd => Survey.kind_ne_file_of_mem hd) (hbelow ▸ htop) (hid ▸ hparent) hexportable
  rw [← hbelow] at hsub
  refine ⟨top, htop, hparent, hexportable, inner, hinner, hsub, ?_⟩
  rcases List.mem_cons.mp hbinding with rfl | hbinding
  · exact ⟨top, (h.id_current hstored).symm, Or.inl rfl⟩
  · obtain ⟨e, he, hname⟩ := List.mem_filterMap.mp hbinding
    obtain ⟨name, hname', rfl⟩ := Option.map_eq_some_iff.mp hname
    rw [h.id_current hstored, h.descendants_of_subtrees hb hmem hinner hsub] at he
    obtain ⟨d, hd, rfl⟩ := List.mem_map.mp he
    have hdstored := mem_entitiesOf hb (List.mem_cons_of_mem b.file (hsub.subset hd))
    have hkind : (x.current top).kind ≠ .file := by
      rw [h.current_keeps hstored (·.kind) fun _ => rfl]
      exact (b.tree.kind_below top htop).1
    refine ⟨d, (h.id_current hdstored).symm, Or.inr ⟨hd, hall d hd, ?_⟩⟩
    rw [← h.current_keeps hdstored (·.label) fun _ => rfl]
    exact dot_mem_of_nameBelow? hkind hname'

/-- So does a statement that lists no names, in a language that includes whole files. -/
theorem Stores.exposes_of_mem_statementBindings (h : Stores x blocks)
    (hblocks : BlocksOf files blocks) (hfree : ∀ f ∈ files, colonFree f.path)
    {language : Language} (hlanguage : language.importsWholeFiles = true) {s : Import.Statement}
    (hs : s.names = []) {binding : String × String}
    (hbinding : binding ∈ x.statementBindings language s) :
    ∃ b ∈ blocks, b.Exposes binding.2 := by
  have hfiles : ∀ ids : List String, ids ⊆ x.resolver.files →
      binding ∈ (ids.filterMap x.find?).flatMap
        (fun f => x.labelBindings ((x.topOf f.id).filter (·.exportable))) →
      ∃ b ∈ blocks, b.Exposes binding.2 := by
    intro ids hids hmem
    obtain ⟨f, hf, hmem⟩ := List.mem_flatMap.mp hmem
    obtain ⟨id, hid, hfind⟩ := List.mem_filterMap.mp hf
    have hstored : id ∈ blocks.map (·.file.id) := h.files ▸ Import.mem_sorted.mp (hids hid)
    obtain ⟨b, hb, rfl⟩ := List.mem_map.mp hstored
    have hfile := mem_entitiesOf hb b.file_mem
    rw [h.find?_eq hfile] at hfind
    obtain rfl := Option.some.inj hfind
    rw [h.id_current hfile] at hmem
    exact ⟨b, hb, h.exposes_of_mem_labelBindings hblocks hfree hb hmem⟩
  rw [statementBindings, hs, hlanguage] at hbinding
  split at hbinding
  next => exact absurd hbinding (by simp)
  next =>
    rw [if_pos (by simp)] at hbinding
    split at hbinding
    · exact hfiles _ (fun id hid => List.mem_of_mem_filter hid) hbinding
    · exact hfiles _ (fun id hid => List.mem_of_mem_filter hid) hbinding

/-! ## Names in scope of a C file -/

section Readied

variable (root : String) (hapart : PathsApart files)
  (hx : Stores ((empty root).readied files) blocks) (hblocks : BlocksOf files blocks)
  (hb : b ∈ blocks)

include hapart hx hblocks hb

/-- A name in a C file stands for something in it or for what another file exposes. -/
theorem standFor_namesIn_c (hlanguage : b.file.language = .c) :
    (((empty root).readied files).namesIn b.file.id).StandFor fun id =>
      id ∈ b.entities.map (·.id) ∨ ∃ b' ∈ blocks, b'.Exposes id := by
  have hmem := mem_entitiesOf hb b.file_mem
  have hcurrent := current_file_readied root hapart hx hblocks hb
  obtain ⟨f, -, l, -, -, -, hl, himports⟩ := hblocks.exists_extraction hapart.colonFree hb
  rw [namesIn_eq _ (hx.find?_eq hmem), hcurrent]
  refine .importMany (.defineMany (fun key id hid => absurd hid (by simp [Names.find?_empty])) ?_) ?_
  · intro d hd
    rw [hx.descendants_eq hb] at hd
    obtain ⟨c, hc, rfl⟩ := List.mem_map.mp hd
    have hc' : c ∈ b.entities := List.mem_cons_of_mem b.file hc
    rw [hx.id_current (mem_entitiesOf hb hc')]
    exact Or.inl (List.mem_map_of_mem hc')
  · intro binding hbinding
    have hlanguage' : (b.file.resolved (run root [files]).resolver).language = .c := hlanguage
    rw [packageBindings, packageFiles, hlanguage', if_neg (by decide), List.flatMap_nil,
      List.append_nil, importBindings, hlanguage'] at hbinding
    obtain ⟨s, hs, hbinding⟩ := List.mem_flatMap.mp hbinding
    obtain ⟨s₀, hs₀, rfl⟩ := List.mem_map.mp hs
    have hnames : s₀.names = [] := by
      rw [himports, ← hl, hlanguage] at hs₀
      exact Import.names_statements_eq_nil (by decide) Catalogue.labels_imports_c f.content s₀ hs₀
    exact Or.inr (hx.exposes_of_mem_statementBindings hblocks hapart.colonFree rfl
      (Import.Resolver.names_resolve_eq_nil hnames _ _ _) hbinding)

end Readied

/-! ## Links from C files -/

/-- In C only definitions at the top of a file are exposed, and none whose text starts with
`static`. -/
theorem parent_of_exposed_c (hblocks : BlocksOf files blocks)
    (hcolons : ∀ f ∈ files, colonFree f.path) (hb : b ∈ blocks)
    (hlanguage : Language.ofPath? b.file.id = some .c) {d : Entity} (hd : d ∈ b.below)
    (hplace : d.parent = some b.file.id ∧ d.exportable = true ∨ '.' ∈ d.label.toList) :
    d.parent = some b.file.id ∧ Text.startsWith d.source "static" = false := by
  obtain ⟨f, -, l, hl, hid, hentities, -, -⟩ := hblocks.exists_extraction hcolons hb
  rw [hid, hl, Option.some.injEq] at hlanguage
  subst hlanguage
  have hbelow : b.below = _ := congrArg List.tail hentities
  obtain ⟨hdot, hvisible⟩ := Extraction.linkage_of_mem (hbelow ▸ hd)
  obtain ⟨hparent, hexportable⟩ := hplace.resolve_right hdot
  rw [hvisible (hid ▸ hparent), Bool.not_eq_true'] at hexportable
  exact ⟨hparent, hexportable⟩

/-- What a file exposes is exportable, as is the definition at the top of the file around it. -/
theorem Stores.exists_top_of_exposes (h : Stores x blocks) (hblocks : BlocksOf files blocks)
    (hcolons : ∀ f ∈ files, colonFree f.path) (hb : b ∈ blocks) {id : String}
    (hexposes : b.Exposes id) :
    ∃ e, x.find? id = some e ∧ e.exportable = true ∧
      (∃ top, x.find? top.id = some top ∧ top.parent = some e.filePath ∧ top.exportable = true ∧
        (e = top ∨ e ∈ x.descendants top.id)) ∧
      (Language.ofPath? e.filePath = some .c →
        e.parent = some e.filePath ∧ Text.startsWith e.source "static" = false) := by
  obtain ⟨top, htop, hparent, hexportable, inner, hinner, hsub, d, rfl, hplace⟩ := hexposes
  have hd : d ∈ b.below ∧ d.exportable = true := by
    rcases hplace with rfl | ⟨hd, hdexportable, -⟩
    · exact ⟨htop, hexportable⟩
    · exact ⟨hsub.subset hd, hdexportable⟩
  have hdmem : d ∈ b.entities := List.mem_cons_of_mem b.file hd.1
  have htopmem : top ∈ b.entities := List.mem_cons_of_mem b.file htop
  have hstored := mem_entitiesOf hb hdmem
  have htopstored := mem_entitiesOf hb htopmem
  rw [h.find?_eq hstored]
  refine ⟨x.current d, rfl, ?_, ⟨x.current top, ?_, ?_, ?_, ?_⟩, ?_⟩
  · rw [h.current_keeps hstored (·.exportable) fun _ => rfl, hd.2]
  · rw [h.id_current htopstored]
    exact h.find?_eq htopstored
  · rw [h.current_keeps htopstored (·.parent) fun _ => rfl, hparent,
      h.filePath_current hblocks hcolons hb hdmem]
  · rw [h.current_keeps htopstored (·.exportable) fun _ => rfl, hexportable]
  · rw [h.id_current htopstored, h.descendants_of_subtrees hb htopmem hinner hsub]
    rcases hplace with rfl | ⟨hd, -⟩
    · exact Or.inl rfl
    · exact Or.inr (List.mem_map_of_mem hd)
  · rw [h.filePath_current hblocks hcolons hb hdmem,
      h.current_keeps hstored (·.parent) fun _ => rfl,
      h.current_keeps hstored (·.source) fun _ => rfl]
    intro hlanguage
    refine parent_of_exposed_c hblocks hcolons hb hlanguage hd.1 ?_
    rcases hplace with rfl | ⟨-, -, hdot⟩
    · exact Or.inl ⟨hparent, hexportable⟩
    · exact Or.inr hdot

/-- After a run on distinct files, every link from a C file to another file leads to something
exportable in an exportable definition at the top of that file; and if that is a C file as well, to
such a definition itself, whose text does not start with `static`. -/
theorem calls_exportable (root : String) (files : List SourceFile)
    (hpaths : (files.map (·.path)).Nodup) (hcolons : ∀ f ∈ files, colonFree f.path) :
    ∀ l ∈ (run root [files]).links, l.label = .calls →
      ∃ a b : Entity, (run root [files]).find? l.source = some a ∧
        (run root [files]).find? l.target = some b ∧
        (Language.ofPath? a.filePath = some .c → b.filePath ≠ a.filePath →
          b.exportable = true ∧
          (∃ top, (run root [files]).find? top.id = some top ∧ top.parent = some b.filePath ∧
            top.exportable = true ∧ (b = top ∨ b ∈ (run root [files]).descendants top.id)) ∧
          (Language.ofPath? b.filePath = some .c →
            b.parent = some b.filePath ∧ Text.startsWith b.source "static" = false)) := by
  intro l hl hcalls
  have hapart : PathsApart files := ⟨hpaths, hcolons⟩
  obtain ⟨blocks, hreadied, hblocks⟩ := (holds_empty root).readied files hapart
  have hfinal : Stores (run root [files]) blocks := hreadied.addUses_found
  have hpair := mem_found_of_links root hapart hl hcalls
  obtain ⟨b, hb, hsource, hnames⟩ := hreadied.exists_names_of_found hpair
  obtain ⟨-, -, b', hb', -, htarget, -⟩ := hreadied.exists_leads_of_found hpair
  obtain ⟨e, he, hsource⟩ := List.mem_map.mp hsource
  obtain ⟨e', he', htarget⟩ := List.mem_map.mp htarget
  have hfind : (run root [files]).find? l.target = some ((run root [files]).current e') := by
    rw [← htarget]
    exact hfinal.find?_eq (mem_entitiesOf hb' he')
  refine ⟨(run root [files]).current e, (run root [files]).current e', ?_, hfind, ?_⟩
  · rw [← hsource]
    exact hfinal.find?_eq (mem_entitiesOf hb he)
  intro hlanguage hne
  rw [hfinal.filePath_current hblocks hcolons hb he] at hlanguage hne
  have hfile : b.file.language = .c := by
    obtain ⟨f, -, k, hk, hid, -, hsame, -⟩ := hblocks.exists_extraction hcolons hb
    rw [hid, hk, Option.some.injEq] at hlanguage
    rw [hsame, hlanguage]
  rcases hnames _ (standFor_namesIn_c root hapart hreadied hblocks hb hfile) with
    hown | ⟨c, hc, hexposes⟩
  · -- the target would belong to the same file
    obtain ⟨d, hd, hid⟩ := List.mem_map.mp hown
    have hsame := hfinal.find?_eq (mem_entitiesOf hb hd)
    rw [hid, hfind, Option.some.injEq] at hsame
    rw [hsame, hfinal.filePath_current hblocks hcolons hb hd] at hne
    exact absurd rfl hne
  · obtain ⟨d, hd, hseen⟩ := hfinal.exists_top_of_exposes hblocks hcolons hc hexposes
    rw [hfind, Option.some.injEq] at hd
    rw [hd]
    exact hseen

/-! ## A definition that is static later on -/

def lateStaticText : String := "const static int v = 1;\n"

def includingText : String := "#include \"a.c\"\nf(v);\n"

/-- A static variable whose text starts with another word, and a file that uses it. -/
def lateStaticFiles : List SourceFile := [⟨"/a.c", lateStaticText⟩, ⟨"/m.c", includingText⟩]

theorem calls_exportable_lateStaticFiles :
    (lateStaticFiles.map (·.path)).Nodup ∧ (∀ f ∈ lateStaticFiles, colonFree f.path) ∧
      ∀ l ∈ (run "/" [lateStaticFiles]).links, l.label = .calls →
        ∃ a b : Entity, (run "/" [lateStaticFiles]).find? l.source = some a ∧
          (run "/" [lateStaticFiles]).find? l.target = some b ∧
          (Language.ofPath? a.filePath = some .c → b.filePath ≠ a.filePath →
            b.exportable = true ∧
            (∃ top, (run "/" [lateStaticFiles]).find? top.id = some top ∧
              top.parent = some b.filePath ∧ top.exportable = true ∧
              (b = top ∨ b ∈ (run "/" [lateStaticFiles]).descendants top.id)) ∧
            (Language.ofPath? b.filePath = some .c →
              b.parent = some b.filePath ∧ Text.startsWith b.source "static" = false)) :=
  ⟨by decide, by decide, calls_exportable "/" lateStaticFiles (by decide) (by decide)⟩

def lateStatic : Survey.Definition where
  kind := .assignment
  span := ⟨0, 23, ⟨0, 0⟩, ⟨0, 23⟩⟩
  comments := []
  parts := [⟨"name", ⟨17, 18, ⟨0, 17⟩, ⟨0, 18⟩⟩⟩]
  owned := none
  chained := []

def inclusion : Import.Statement :=
  ⟨"a.c", "a.c", [], "", "#include \"a.c\"\n", ⟨0, 0⟩, ⟨1, 0⟩, false⟩

theorem survey_lateStaticText : Survey.of .c lateStaticText = ⟨[lateStatic], [], []⟩ := by
  have hlanguage : (Syntax.parse .c lateStaticText).language = .c := rfl
  -- the characters of the patterns are laid open first, which keeps the evaluation short
  simp only [Survey.of, Survey.definitionsOf, Survey.definitionAt, Survey.partsOf,
    Survey.exportsOf, Import.statements, Capture.all, Capture.labelled, hlanguage,
    Catalogue.queries_eq_readChars?, Catalogue.groups, Catalogue.c, Catalogue.C.imports,
    Catalogue.C.definitions, Catalogue.C.parts, Catalogue.C.globals, List.map_cons, List.map_nil]
  repeat rw [String.toList_ofList]
  decide +kernel

def usesOfIncludingText : List Capture :=
  [⟨"identifier.name", "f", ⟨15, 16, ⟨1, 0⟩, ⟨1, 1⟩⟩, false⟩,
    ⟨"identifier.name", "v", ⟨17, 18, ⟨1, 2⟩, ⟨1, 3⟩⟩, false⟩]

/-- What is found in the text, for which it is parsed only once. -/
theorem found_includingText :
    Survey.of .c includingText = ⟨[], [], [inclusion]⟩ ∧
      (Capture.all (Syntax.parse .c includingText) .uses).flatten = usesOfIncludingText ∧
      Uses.windows .c includingText = [] := by
  have hlanguage : (Syntax.parse .c includingText).language = .c := rfl
  simp only [Survey.of, Survey.definitionsOf, Survey.exportsOf, Import.statements, Uses.windows,
    Capture.all, Capture.labelled, hlanguage, Catalogue.queries_eq_readChars?, Catalogue.groups,
    Catalogue.c, Catalogue.C.imports, Catalogue.C.definitions, Catalogue.C.globals,
    Catalogue.C.uses, Catalogue.C.assignments, List.map_cons, List.map_nil]
  repeat rw [String.toList_ofList]
  decide +kernel

/-- The index of the files before uses are looked for. -/
def lateStaticIndex : Index :=
  (((empty "/").addFile
      (Extraction.entities .c "/a.c" lateStaticText ⟨[lateStatic], [], []⟩)).addFile
    (Extraction.entities .c "/m.c" includingText ⟨[], [], [inclusion]⟩)).resolveImports.1

theorem readied_lateStaticFiles : (empty "/").readied lateStaticFiles = lateStaticIndex := by
  rw [readied, lateStaticFiles,
    addFiles_of_survey (f := ⟨"/a.c", lateStaticText⟩) (by rfl) survey_lateStaticText,
    addFiles_of_survey (f := ⟨"/m.c", includingText⟩) (by rfl) found_includingText.1]
  rfl

/-- A static definition is linked to from another C file when its text starts with another word. -/
theorem not_forall_calls_not_static :
    ¬ ∀ (root : String) (files : List SourceFile), (files.map (·.path)).Nodup →
      (∀ f ∈ files, colonFree f.path) →
      ∀ l ∈ (run root [files]).links, l.label = .calls →
        ∀ a b : Entity, (run root [files]).find? l.source = some a →
          (run root [files]).find? l.target = some b →
          Language.ofPath? a.filePath = some .c → b.filePath ≠ a.filePath →
          "static".toList ∉ b.source.toList.splitOn ' ' := by
  intro h
  have hapart : PathsApart lateStaticFiles := ⟨by decide, by decide⟩
  obtain ⟨file, hfile, hid, hpath, hlanguage, hparent, hprepared, hcaptured⟩ : ∃ file,
      lateStaticIndex.find? "/m.c" = some file ∧ file.id = "/m.c" ∧ file.filePath = "/m.c" ∧
        file.language = .c ∧ file.parent = none ∧
        Uses.prepare ⟨.c, lateStaticIndex.namesIn "/m.c", file.imports⟩ file
          (lateStaticIndex.childrenOf file) none = includingText ∧
        (Uses.ofCaptures ⟨.c, lateStaticIndex.namesIn "/m.c", file.imports⟩ file
          usesOfIncludingText).find? "/a.c::v" = some [2] := by decide +kernel
  obtain ⟨d, hd, hdpath, hstatic⟩ : ∃ d, lateStaticIndex.find? "/a.c::v" = some d ∧
      d.filePath = "/a.c" ∧ "static".toList ∈ d.source.toList.splitOn ' ' := by decide +kernel
  obtain ⟨l, hl, hcalls, a, b, ha, hb, hsource, htarget⟩ :=
    exists_link_of_captures "/" hapart readied_lateStaticFiles (by decide +kernel) hfile hid
      hlanguage hparent hprepared found_includingText.2.2 found_includingText.2.1 hcaptured hd
      (by decide)
  have hapath : a.filePath = "/m.c" := (congrArg Entity.filePath hsource).trans hpath
  have hbpath : b.filePath = "/a.c" := (congrArg Entity.filePath htarget).trans hdpath
  have hbsource : b.uncounted.source = d.uncounted.source := congrArg Entity.source htarget
  refine h "/" lateStaticFiles hapart.nodup hapart.colonFree l hl hcalls a b ha hb ?_ ?_ ?_
  · rw [hapath]
    rfl
  · rw [hapath, hbpath]
    decide
  · exact hbsource ▸ hstatic

end Index
end CodeAtlas

import CodeAtlas.Proofs.Import.Blind
import CodeAtlas.Proofs.Index.Batch

/-!
# Links between languages

A link between two files joins files of compatible languages, unless the first file sees the second
one by a lookup that is blind to the language of what it finds.
-/

namespace CodeAtlas

/-- A file sees another one without a look at its language: by an import statement, or as part of
the same folder, which a Java file takes for its package. -/
inductive Entity.SeesBlindly (r : Import.Resolver) (file : Entity) (path : String) : Prop
  | statement (s : Import.Statement) (hs : s ∈ file.imports)
      (hshows : s.ShowsBlindly r file.id file.language path)
  | package (hjava : file.language = .java)
      (hpath : path ∈ r.filesIn ((Path.parent? file.id).getD ""))

theorem Entity.SeesBlindly.of_uncounted {r : Import.Resolver} {file file' : Entity} {path : String}
    (h : file.SeesBlindly r path) (hsame : file.uncounted = file'.uncounted) :
    file'.SeesBlindly r path := by
  have hid : file.id = file'.id := by simpa using congrArg Entity.id hsame
  have hlanguage : file.language = file'.language := by simpa using congrArg Entity.language hsame
  have himports : file.imports = file'.imports := by simpa using congrArg Entity.imports hsame
  rcases h with ⟨s, hs, hshows⟩ | ⟨hjava, hpath⟩
  · exact .statement s (himports ▸ hs) (hid ▸ hlanguage ▸ hshows)
  · exact .package (hlanguage ▸ hjava) (hid ▸ hpath)

namespace Index

variable {files : List SourceFile} {blocks : List FileBlock} {b : FileBlock}

/-- Every file that an import can find is of a known language. -/
theorem ofPath?_of_mem_resolver (root : String) (hapart : PathsApart files)
    {f : String} (hf : f ∈ (run root [files]).resolver.files) :
    (Language.ofPath? f).isSome = true := by
  obtain ⟨blocks, hstores, hblocks⟩ := holds_run_singleton root hapart
  have hstored : f ∈ blocks.map (·.file.id) := hstores.files ▸ Import.mem_sorted.mp hf
  obtain ⟨b, hb, rfl⟩ := List.mem_map.mp hstored
  obtain ⟨f, -, l, hl, hid, -⟩ := hblocks.exists_extraction hapart.colonFree hb
  rw [hid, hl]
  rfl

/-- A file that another one sees before uses are recorded is of a compatible language or is seen
blindly. -/
theorem compatible_or_seesBlindly (root : String) (hapart : PathsApart files)
    (hx : Stores ((empty root).readied files) blocks) (hblocks : BlocksOf files blocks)
    (hb : b ∈ blocks) {path : String}
    (hsees : (((empty root).readied files).current b.file).Sees (run root [files]).resolver path) :
    (∃ l, Language.ofPath? path = some l ∧ b.file.language.compatible l = true) ∨
      (((empty root).readied files).current b.file).SeesBlindly (run root [files]).resolver
        path := by
  rw [current_file_readied root hapart hx hblocks hb] at hsees ⊢
  rcases hsees with ⟨s, hs, hshows⟩ | ⟨hjava, hpath⟩
  · obtain ⟨s, hs₀, rfl⟩ := List.mem_map.mp hs
    obtain ⟨f, -, l, -, -, -, -, himports⟩ := hblocks.exists_extraction hapart.colonFree hb
    have hfresh := Import.fresh_statements l f.content s (himports ▸ hs₀)
    exact (hfresh.compatible_or_showsBlindly
      (fun f hf => ofPath?_of_mem_resolver root hapart hf) hshows).imp_right (.statement _ hs)
  · exact Or.inr (.package hjava hpath)

/-- After a run on distinct files, every link joins files of compatible languages, or the file of
its source sees the file of its target by a lookup that is blind to the language. -/
theorem calls_compatible (root : String) (files : List SourceFile)
    (hpaths : (files.map (·.path)).Nodup) (hcolons : ∀ f ∈ files, colonFree f.path) :
    ∀ l ∈ (run root [files]).links, l.label = .calls →
      ∃ (a b file : Entity) (language language' : Language),
        (run root [files]).find? l.source = some a ∧
        (run root [files]).find? l.target = some b ∧
        (run root [files]).find? a.filePath = some file ∧ file.kind = .file ∧
        Language.ofPath? a.filePath = some language ∧
        Language.ofPath? b.filePath = some language' ∧
        (language.compatible language' = true ∨
          file.SeesBlindly (run root [files]).resolver b.filePath) := by
  intro l hl hcalls
  have hapart : PathsApart files := ⟨hpaths, hcolons⟩
  obtain ⟨blocks, hreadied, hblocks⟩ := (holds_empty root).readied files hapart
  have hfinal : Stores (run root [files]) blocks := hreadied.addUses_found
  obtain ⟨-, hresolver, hkeeps⟩ := run_keeps root hapart
  obtain ⟨b, hb, b', hb', hsource, htarget, hsees⟩ :=
    hreadied.exists_sees_of_found (mem_found_of_links root hapart hl hcalls)
  obtain ⟨e, he, hsource⟩ := List.mem_map.mp hsource
  obtain ⟨e', he', htarget⟩ := List.mem_map.mp htarget
  obtain ⟨f, -, language, hlanguage, hid, -, hown, -⟩ := hblocks.exists_extraction hcolons hb
  obtain ⟨f', -, language', hlanguage', hid', -⟩ := hblocks.exists_extraction hcolons hb'
  have hfile := mem_entitiesOf hb b.file_mem
  have hpath := hfinal.filePath_current hblocks hcolons hb he
  have hpath' := hfinal.filePath_current hblocks hcolons hb' he'
  refine ⟨(run root [files]).current e, (run root [files]).current e',
    (run root [files]).current b.file, language, language', ?_, ?_, ?_, ?_, ?_, ?_, ?_⟩
  · rw [← hsource]
    exact hfinal.find?_eq (mem_entitiesOf hb he)
  · rw [← htarget]
    exact hfinal.find?_eq (mem_entitiesOf hb' he')
  · rw [hpath]
    exact hfinal.find?_eq hfile
  · rw [hfinal.current_keeps hfile (·.kind) fun _ => rfl]
    exact b.tree.kind_file
  · rw [hpath, hid, hlanguage]
  · rw [hpath', hid', hlanguage']
  · rw [hpath']
    rcases hsees with hsame | hsees
    · have heq : language = language' := by
        rw [hid, hid'] at hsame
        rw [hsame, hlanguage] at hlanguage'
        exact Option.some.inj hlanguage'
      exact Or.inl (by simp [Language.compatible, heq])
    · rw [← hresolver] at hsees
      rcases compatible_or_seesBlindly root hapart hreadied hblocks hb hsees with
        ⟨l, hl, hcompatible⟩ | hblindly
      · rw [hid', hlanguage', Option.some.injEq] at hl
        exact Or.inl (hown ▸ hl ▸ hcompatible)
      · exact Or.inr (hblindly.of_uncounted
          (hreadied.uncounted_current hfinal hfile hfile (hkeeps b.file.id).symm))

/-! ## A file of another language with the name of a module -/

def namingText : String := "import u\nu()\n"

/-- A C file, and a Python file that imports a module of its name. -/
def namesakes : List SourceFile := [⟨"/u.c", ""⟩, ⟨"/m.py", namingText⟩]

theorem calls_compatible_namesakes :
    (namesakes.map (·.path)).Nodup ∧ (∀ f ∈ namesakes, colonFree f.path) ∧
      ∀ l ∈ (run "/" [namesakes]).links, l.label = .calls →
        ∃ (a b file : Entity) (language language' : Language),
          (run "/" [namesakes]).find? l.source = some a ∧
          (run "/" [namesakes]).find? l.target = some b ∧
          (run "/" [namesakes]).find? a.filePath = some file ∧ file.kind = .file ∧
          Language.ofPath? a.filePath = some language ∧
          Language.ofPath? b.filePath = some language' ∧
          (language.compatible language' = true ∨
            file.SeesBlindly (run "/" [namesakes]).resolver b.filePath) :=
  ⟨by decide, by decide, calls_compatible "/" namesakes (by decide) (by decide)⟩

def namingImport : Import.Statement :=
  ⟨"u", "u", [], "", "import u", ⟨0, 0⟩, ⟨0, 8⟩, false⟩

theorem survey_empty_c : Survey.of .c "" = ⟨[], [], []⟩ := by
  have hlanguage : (Syntax.parse .c "").language = .c := rfl
  -- the characters of the patterns are laid open first, which keeps the evaluation short
  simp only [Survey.of, Survey.definitionsOf, Survey.exportsOf, Import.statements, Capture.all,
    Capture.labelled, hlanguage, Catalogue.queries_eq_readChars?, Catalogue.groups, Catalogue.c,
    Catalogue.C.imports, Catalogue.C.definitions, Catalogue.C.globals, List.map_cons,
    List.map_nil]
  repeat rw [String.toList_ofList]
  decide +kernel

/-- What is found in the text, for which it is parsed only once. -/
theorem found_namingText :
    Survey.of .python namingText = ⟨[], [], [namingImport]⟩ ∧
      (Capture.all (Syntax.parse .python namingText) .uses).flatten =
        [⟨"identifier.name", "u", ⟨9, 10, ⟨1, 0⟩, ⟨1, 1⟩⟩, false⟩] ∧
      Uses.windows .python namingText = [] := by
  have hlanguage : (Syntax.parse .python namingText).language = .python := rfl
  simp only [Survey.of, Survey.definitionsOf, Survey.exportsOf, Import.statements, Uses.windows,
    Capture.all, Capture.labelled, hlanguage, Catalogue.queries_eq_readChars?, Catalogue.groups,
    Catalogue.python, Catalogue.Python.imports, Catalogue.Python.definitions,
    Catalogue.Python.globals, Catalogue.Python.uses, Catalogue.Python.assignments, List.map_cons,
    List.map_nil]
  repeat rw [String.toList_ofList]
  decide +kernel

/-- The index of the files before uses are looked for. -/
def namesakesIndex : Index :=
  (((empty "/").addFile (Extraction.entities .c "/u.c" "" ⟨[], [], []⟩)).addFile
    (Extraction.entities .python "/m.py" namingText ⟨[], [], [namingImport]⟩)).resolveImports.1

theorem readied_namesakes : (empty "/").readied namesakes = namesakesIndex := by
  rw [readied, namesakes,
    addFiles_of_survey (f := ⟨"/u.c", ""⟩) (by rfl) survey_empty_c,
    addFiles_of_survey (f := ⟨"/m.py", namingText⟩) (by rfl) found_namingText.1]
  rfl

/-- The module that a Python file imports can be a C file. -/
theorem not_forall_calls_compatible :
    ¬ ∀ (root : String) (files : List SourceFile), (files.map (·.path)).Nodup →
      ∀ l ∈ (run root [files]).links, l.label = .calls →
        ∀ (a b : Entity) (language language' : Language),
          (run root [files]).find? l.source = some a →
          (run root [files]).find? l.target = some b →
          Language.ofPath? a.filePath = some language →
          Language.ofPath? b.filePath = some language' →
          language.compatible language' = true := by
  intro h
  have hapart : PathsApart namesakes := ⟨by decide, by decide⟩
  obtain ⟨file, hfile, hid, hpath, hlanguage, hparent, hprepared, hcaptured⟩ : ∃ file,
      namesakesIndex.find? "/m.py" = some file ∧ file.id = "/m.py" ∧ file.filePath = "/m.py" ∧
        file.language = .python ∧ file.parent = none ∧
        Uses.prepare ⟨.python, namesakesIndex.namesIn "/m.py", file.imports⟩ file
          (namesakesIndex.childrenOf file) none = namingText ∧
        (Uses.ofCaptures ⟨.python, namesakesIndex.namesIn "/m.py", file.imports⟩ file
          [⟨"identifier.name", "u", ⟨9, 10, ⟨1, 0⟩, ⟨1, 1⟩⟩, false⟩]).find? "/u.c" = some [2] := by
    decide +kernel
  obtain ⟨d, hd, hdpath⟩ : ∃ d, namesakesIndex.find? "/u.c" = some d ∧ d.filePath = "/u.c" := by
    decide +kernel
  obtain ⟨l, hl, hcalls, a, b, ha, hb, hsource, htarget⟩ :=
    exists_link_of_captures "/" hapart readied_namesakes (by decide +kernel) hfile hid hlanguage
      hparent hprepared found_namingText.2.2 found_namingText.2.1 hcaptured hd (by decide)
  have hapath : a.filePath = "/m.py" := (congrArg Entity.filePath hsource).trans hpath
  have hbpath : b.filePath = "/u.c" := (congrArg Entity.filePath htarget).trans hdpath
  have hpython : Language.ofPath? "/m.py" = some .python := rfl
  have hc : Language.ofPath? "/u.c" = some .c := rfl
  have hcompatible := h "/" namesakes hapart.nodup l hl hcalls a b .python .c ha hb
    (hapath ▸ hpython) (hbpath ▸ hc)
  exact absurd hcompatible (by decide)

end Index
end CodeAtlas

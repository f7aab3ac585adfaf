import CodeAtlas.Proofs.Import.Soundness

/-!
# Imports among more files

When files are added, an import may lead somewhere else: a file that completes an earlier base takes
the place of a later one, and once the module itself is a file, neither the folder of a wildcard nor
the names are asked any more.  An import that led somewhere never comes to lead nowhere, though.
Every single search succeeds among more files if it did among fewer, and a fresh statement is
resolved exactly if one of the searches succeeds that are made while its module is not found.
-/

namespace CodeAtlas
namespace Import
namespace Resolver

variable {r r' : Resolver} {importer text path stem : String} {language : Language}
  {anchor : Anchor} {s : Statement}

/-! ## Searches that succeed -/

theorem isSome_stemAt?_iff : (r.stemAt? language path).isSome = true ↔
    path ∈ r.files ∨ r.completes language path = true ∨
      ∃ ending, language.indexEnding? = some ending ∧
        r.completes language (path ++ ending) = true := by
  rw [stemAt?]
  split
  next hfile => simp [List.contains_iff_mem.mp hfile]
  next hfile =>
    have hnot : path ∉ r.files := fun hmem => hfile (List.contains_iff_mem.mpr hmem)
    split
    next hcompletes => simp [hcompletes]
    next hcompletes =>
      split
      next hnone => simp [hnot, hcompletes, hnone]
      next ending hending =>
        split
        next hindex => simp [hending, hindex]
        next hindex => simp [hnot, hcompletes, hending, hindex]

theorem isSome_stemEnding?_iff : (r.stemEnding? path).isSome = true ↔
    ∃ f ∈ r.files, Text.endsWith (Path.withoutExtension f)
      ("/" ++ Text.trimStartOf '/' path) = true := by
  rw [stemEnding?, List.find?_isSome]
  constructor
  · rintro ⟨stem, hstem, hends⟩
    obtain ⟨f, hf, rfl⟩ := List.mem_map.mp (mem_sorted.mp hstem)
    exact ⟨f, hf, hends⟩
  · rintro ⟨f, hf, hends⟩
    exact ⟨_, mem_sorted.mpr (List.mem_map_of_mem hf), hends⟩

theorem isSome_folderEnding?_iff : (r.folderEnding? path).isSome = true ↔
    ∃ f ∈ r.files, ∃ d, Path.parent? f = some d ∧
      Text.endsWith d ("/" ++ Text.trimStartOf '/' path) = true := by
  rw [folderEnding?, List.find?_isSome]
  constructor
  · rintro ⟨d, hd, hends⟩
    obtain ⟨f, hf, hparent⟩ := List.mem_filterMap.mp hd
    exact ⟨f, hf, d, hparent, hends⟩
  · rintro ⟨f, hf, d, hparent, hends⟩
    exact ⟨d, List.mem_filterMap.mpr ⟨f, hf, hparent⟩, hends⟩

theorem isSome_moduleStem?_iff : (r.moduleStem? importer language text anchor).isSome = true ↔
    (∃ b ∈ r.bases importer text anchor, (r.stemAt? language b).isSome = true) ∨
      byEnding language anchor = true ∧ (r.stemEnding? text).isSome = true := by
  rw [← List.findSome?_isSome_iff, moduleStem?]
  cases (r.bases importer text anchor).findSome? (r.stemAt? language) with
  | some stem => simp
  | none => cases byEnding language anchor <;> simp

theorem isSome_namedFolder?_iff : (r.namedFolder? importer language text anchor).isSome = true ↔
    (∃ b ∈ r.bases importer text anchor, r.filesIn b ≠ []) ∨
      byEnding language anchor = true ∧ (r.folderEnding? text).isSome = true := by
  have hbases : (∃ b ∈ r.bases importer text anchor, r.filesIn b ≠ []) ↔
      ((r.bases importer text anchor).find? fun b => !(r.filesIn b).isEmpty).isSome = true := by
    simp [List.find?_isSome]
  rw [hbases, namedFolder?]
  cases (r.bases importer text anchor).find? fun b => !(r.filesIn b).isEmpty with
  | some b => simp
  | none => cases byEnding language anchor <;> simp

theorem isSome_subpath?_iff {ending : Bool} {folders : List String} {name : String} :
    (r.subpath? language ending text folders name).isSome = true ↔
      (∃ d ∈ folders, (r.stemAt? language (d ++ "/" ++ name)).isSome = true) ∨
        ending = true ∧ (r.stemEnding? (text ++ "/" ++ name)).isSome = true := by
  rw [← List.findSome?_isSome_iff (f := fun d => r.stemAt? language (d ++ "/" ++ name)), subpath?]
  cases folders.findSome? fun d => r.stemAt? language (d ++ "/" ++ name) with
  | some stem => simp
  | none => cases ending <;> simp

/-! ## Searches among more files -/

/-- The second index has the root of the first one, and its files. -/
structure Grows (r r' : Resolver) : Prop where
  root : r'.root = r.root
  files : r.files ⊆ r'.files

namespace Grows

theorem bases (h : Grows r r') (importer path : String) (anchor : Anchor) :
    r'.bases importer path anchor = r.bases importer path anchor := by
  cases anchor <;> simp only [Resolver.bases, h.root]

theorem completes (h : Grows r r') (hcompletes : r.completes language path = true) :
    r'.completes language path = true := by
  obtain ⟨e, he, hmem⟩ := List.any_eq_true.mp hcompletes
  refine List.any_eq_true.mpr ⟨e, he, ?_⟩
  exact List.contains_iff_mem.mpr (h.files (List.contains_iff_mem.mp hmem))

theorem stemAt? (h : Grows r r') (hsome : (r.stemAt? language path).isSome = true) :
    (r'.stemAt? language path).isSome = true := by
  rw [isSome_stemAt?_iff] at hsome ⊢
  rcases hsome with hfile | hcompletes | ⟨ending, hending, hcompletes⟩
  · exact Or.inl (h.files hfile)
  · exact Or.inr (Or.inl (h.completes hcompletes))
  · exact Or.inr (Or.inr ⟨ending, hending, h.completes hcompletes⟩)

theorem stemEnding? (h : Grows r r') (hsome : (r.stemEnding? path).isSome = true) :
    (r'.stemEnding? path).isSome = true := by
  rw [isSome_stemEnding?_iff] at hsome ⊢
  obtain ⟨f, hf, hends⟩ := hsome
  exact ⟨f, h.files hf, hends⟩

theorem folderEnding? (h : Grows r r') (hsome : (r.folderEnding? path).isSome = true) :
    (r'.folderEnding? path).isSome = true := by
  rw [isSome_folderEnding?_iff] at hsome ⊢
  obtain ⟨f, hf, d, hparent, hends⟩ := hsome
  exact ⟨f, h.files hf, d, hparent, hends⟩

theorem filesIn_ne_nil (h : Grows r r') {folder : String} (hne : r.filesIn folder ≠ []) :
    r'.filesIn folder ≠ [] := by
  obtain ⟨f, hf⟩ := List.exists_mem_of_ne_nil _ hne
  rw [filesIn, List.mem_filter] at hf
  exact List.ne_nil_of_mem (List.mem_filter.mpr ⟨h.files hf.1, hf.2⟩)

theorem moduleStem? (h : Grows r r')
    (hsome : (r.moduleStem? importer language text anchor).isSome = true) :
    (r'.moduleStem? importer language text anchor).isSome = true := by
  rw [isSome_moduleStem?_iff] at hsome ⊢
  rw [h.bases]
  rcases hsome with ⟨b, hb, hat⟩ | ⟨hending, hstem⟩
  · exact Or.inl ⟨b, hb, h.stemAt? hat⟩
  · exact Or.inr ⟨hending, h.stemEnding? hstem⟩

theorem namedFolder? (h : Grows r r')
    (hsome : (r.namedFolder? importer language text anchor).isSome = true) :
    (r'.namedFolder? importer language text anchor).isSome = true := by
  rw [isSome_namedFolder?_iff] at hsome ⊢
  rw [h.bases]
  rcases hsome with ⟨b, hb, hfiles⟩ | ⟨hending, hfolder⟩
  · exact Or.inl ⟨b, hb, h.filesIn_ne_nil hfiles⟩
  · exact Or.inr ⟨hending, h.folderEnding? hfolder⟩

theorem subpath? (h : Grows r r') {ending : Bool} {folders : List String} {name : String}
    (hsome : (r.subpath? language ending text folders name).isSome = true) :
    (r'.subpath? language ending text folders name).isSome = true := by
  rw [isSome_subpath?_iff] at hsome ⊢
  rcases hsome with ⟨d, hd, hat⟩ | ⟨hending, hstem⟩
  · exact Or.inl ⟨d, hd, h.stemAt? hat⟩
  · exact Or.inr ⟨hending, h.stemEnding? hstem⟩

end Grows

/-! ## When a statement is resolved -/

/-- Something is found for a statement: its module, or the folder that a wildcard takes, or a name
of it as a module in one of the places where the module itself was looked for. -/
def FindsSomething (r : Resolver) (importer : String) (language : Language) (text : String)
    (anchor : Anchor) (s : Statement) : Prop :=
  (r.moduleStem? importer language text anchor).isSome = true ∨
    (s.wildcard = true ∧ (r.namedFolder? importer language text anchor).isSome = true) ∨
    ∃ n ∈ s.names, (r.subpath? language (byEnding language anchor) text
      (r.bases importer text anchor) n.name).isSome = true

theorem Grows.findsSomething (h : Grows r r')
    (hfinds : r.FindsSomething importer language text anchor s) :
    r'.FindsSomething importer language text anchor s := by
  rcases hfinds with hmodule | ⟨hwildcard, hfolder⟩ | ⟨n, hn, hsubpath⟩
  · exact Or.inl (h.moduleStem? hmodule)
  · exact Or.inr (Or.inl ⟨hwildcard, h.namedFolder? hfolder⟩)
  · refine Or.inr (Or.inr ⟨n, hn, ?_⟩)
    rw [h.bases]
    exact h.subpath? hsubpath

theorem path_resolve (hmodule : pathOfModule? language s.module = some (text, anchor)) :
    (r.resolve importer language s).path =
      s.names.foldl (filledBy (r.subpath? language (byEnding language anchor) text
        (r.nameFolders importer language text anchor)))
        (r.foundPath importer language text anchor s.wildcard s.path) := by
  rw [resolve_eq hmodule]
  dsimp only
  rw [withSubpaths_eq]
  rfl

/-- A path stays as it is when no name is found. -/
theorem foldl_filledBy_of_none {find : String → Option String} {names : List Name}
    (h : ∀ n ∈ names, find n.name = none) (path : String) :
    names.foldl (filledBy find) path = path := by
  induction names with
  | nil => rfl
  | cons n names ih =>
      rw [List.forall_mem_cons] at h
      rw [List.foldl_cons, filledBy, h.1]
      exact ih h.2

/-- A statement that is resolved has found something. -/
theorem findsSomething_of_path_ne (hpath : s.path = "")
    (hmodule : pathOfModule? language s.module = some (text, anchor))
    (hne : (r.resolve importer language s).path ≠ "") :
    r.FindsSomething importer language text anchor s := by
  by_contra hnothing
  simp only [FindsSomething, not_or, not_and, not_exists, Bool.not_eq_true,
    Option.isSome_eq_false_iff, Option.isNone_iff_eq_none] at hnothing
  obtain ⟨hstem, hfolder, hnames⟩ := hnothing
  have hfound : r.foundPath importer language text anchor s.wildcard s.path = "" := by
    rw [foundPath, hstem]
    dsimp only
    split
    next hwildcard => rw [hfolder hwildcard, Option.getD_none, hpath]
    next => exact hpath
  have hfolders : r.nameFolders importer language text anchor = r.bases importer text anchor := by
    rw [nameFolders, hstem]
  rw [path_resolve hmodule, hfound, hfolders, foldl_filledBy_of_none hnames] at hne
  exact hne rfl

theorem IsIndexed.stem_ne_empty (h : r.IsIndexed) {f : String} (hf : f ∈ r.filesWithStem stem) :
    stem ≠ "" := by
  obtain ⟨hmem, rfl⟩ := mem_filesWithStem.mp hf
  obtain ⟨hnormal, hknown⟩ := h f hmem
  obtain ⟨folder, file, hfolder, hfile, rfl⟩ :=
    hnormal.exists_file (Language.ne_root_of_ofPath? hknown)
  rw [Path.withoutExtension_render hfolder hfile]
  exact Path.render_ne_empty _

/-- Among indexed files, whatever is found gives the statement a path. -/
theorem IsIndexed.path_ne_of_findsSomething (h : r.IsIndexed) (hplain : ∀ n ∈ s.names, n.IsPlain)
    (hmodule : pathOfModule? language s.module = some (text, anchor))
    (hfinds : r.FindsSomething importer language text anchor s) :
    (r.resolve importer language s).path ≠ "" := by
  intro hempty
  rw [path_resolve hmodule] at hempty
  obtain ⟨hfound, hnames⟩ := eq_empty_of_foldl_filledBy hempty
  cases hstem : r.moduleStem? importer language text anchor with
  | some stem =>
      obtain ⟨f, hf⟩ := (finds_of_candidates hstem).exists_file fun f hf => (h f hf).2
      rw [foundPath, hstem] at hfound
      exact h.stem_ne_empty hf hfound
  | none =>
      rw [foundPath, hstem] at hfound
      rw [nameFolders, hstem] at hnames
      rcases hfinds with hsome | ⟨hwildcard, hsome⟩ | ⟨n, hn, hsome⟩
      · rw [hstem] at hsome
        exact absurd hsome (by simp)
      · obtain ⟨folder, hfolder⟩ := Option.isSome_iff_exists.mp hsome
        dsimp only at hfound
        rw [if_pos hwildcard, hfolder, Option.getD_some] at hfound
        obtain ⟨f, hf⟩ := List.exists_mem_of_ne_nil _ (filesIn_ne_nil_of_namedFolder? hfolder)
        exact h.folder_ne_empty hf hfound
      · obtain ⟨stem, hsubpath⟩ := Option.isSome_iff_exists.mp hsome
        obtain ⟨⟨f, hf⟩, front, last, rfl, hlast⟩ := h.exists_of_subpath? (hplain n hn) hsubpath
        exact h.folder_ne_empty (h.mem_filesIn hlast hf) (hnames n hn _ hsubpath)

/-- A fresh statement that is resolved among some files is resolved among more files. -/
theorem succeeds_of_subset {root : String} {files files' : List String} (hsub : files ⊆ files')
    (hfiles : ∀ f ∈ files', Path.IsNormal f ∧ (Language.ofPath? f).isSome = true)
    (importer : String) (language : Language) {s : Statement} (hfresh : s.Fresh)
    (hplain : ∀ n ∈ s.names, n.IsPlain)
    (h : succeeds language ((ofFiles root files).resolve importer language s) = true) :
    succeeds language ((ofFiles root files').resolve importer language s) = true := by
  have hgrows : Grows (ofFiles root files) (ofFiles root files') :=
    ⟨rfl, fun f hf => mem_sorted.mpr (hsub (mem_sorted.mp hf))⟩
  have hindexed : (ofFiles root files').IsIndexed := fun f hf => hfiles f (mem_sorted.mp hf)
  rw [succeeds, module_resolve, Bool.and_eq_true] at h ⊢
  obtain ⟨hsome, hresolved⟩ := h
  obtain ⟨⟨text, anchor⟩, hmodule⟩ := Option.isSome_iff_exists.mp hsome
  have hfinds := findsSomething_of_path_ne hfresh.1 hmodule
    (Statement.path_ne_of_isResolved hresolved)
  have hpath := hindexed.path_ne_of_findsSomething hplain hmodule (hgrows.findsSomething hfinds)
  exact ⟨hsome, by simpa [Statement.isResolved] using hpath⟩

/-- The folder of the wildcard gives way to a file with the name of the package. -/
theorem succeeds_of_subset_wildcard :
    let files := ["/r/App.java", "/r/src/acme/util/Lists.java"]
    let found := fun files => (ofFiles "/r" files).resolve "/r/App.java" .java
      { (default : Statement) with module := "acme.util", wildcard := true }
    (found files).path = "/r/src/acme/util" ∧
      (found ("/r/lib/acme/util.java" :: files)).path = "/r/lib/acme/util" ∧
      succeeds .java (found files) = true ∧
      succeeds .java (found ("/r/lib/acme/util.java" :: files)) = true := by
  intro files found
  have hsucceeds : succeeds .java (found files) = true := by decide +kernel
  refine ⟨by decide +kernel, by decide +kernel, hsucceeds, ?_⟩
  exact succeeds_of_subset (List.subset_cons_self _ _) (by decide +kernel) "/r/App.java" .java
    ⟨rfl, by decide⟩ (by decide) hsucceeds

end Resolver
end Import
end CodeAtlas

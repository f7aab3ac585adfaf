import CodeAtlas.Proofs.Import.Repetition
import CodeAtlas.Proofs.NormalPaths

/-!
# What a resolved import leads to

A statement that is resolved leads to something that is indexed: its path is the stem of a file or a
folder with files in it, and so is the module of each of its names the stem of a file.  Behind this
stands that a path found by adding an extension is what is left when the extension is cut off again.
A statement for which nothing is found stays as it is.
-/

namespace CodeAtlas

namespace Text

/-- A name stays at the end when the slashes that open a text are dropped. -/
theorem suffix_dropWhile_slash (text : List Char) {name : List Char} (h : '/' ∉ name) :
    '/' :: name <:+ '/' :: (text ++ '/' :: name).dropWhile (· == '/') := by
  induction text with
  | nil =>
      have hname : name.dropWhile (· == '/') = name := by
        cases name with
        | nil => rfl
        | cons c cs =>
            rw [List.mem_cons, not_or] at h
            exact List.dropWhile_cons_of_neg (by simpa using Ne.symm h.1)
      rw [List.nil_append, List.dropWhile_cons_of_pos (by simp), hname]
  | cons c text ih =>
      rw [List.cons_append]
      by_cases hc : c = '/'
      · rwa [List.dropWhile_cons_of_pos (by simp [hc])]
      · rw [List.dropWhile_cons_of_neg (by simpa using hc)]
        exact ((List.suffix_append text ('/' :: name)).trans (List.suffix_cons c _)).trans
          (List.suffix_cons '/' _)

end Text

namespace Language

theorem ne_root_of_ofPath? {path : String} (h : (ofPath? path).isSome = true) : path ≠ "/" := by
  rintro rfl
  exact absurd h (by decide)

/-- A path whose last segment has no dot is not that of a file of a known language. -/
theorem ofPath?_of_dotless (front : String) {name : String} (hne : name ≠ "")
    (hslash : '/' ∉ name.toList) (hdot : '.' ∉ name.toList) :
    ofPath? (front ++ "/" ++ name) = none := by
  have hsegment := Path.isSegment_of_plain (by simpa using hne) hslash hdot
  have hname : Path.fileName? (front ++ "/" ++ name) = some (String.ofList name.toList) := by
    refine Path.fileName?_of_rawSegments (Path.rawSegments_append_segment front hslash)
      hsegment.named hsegment.stays ?_
    intro hroot
    exact hslash (by simp [hroot])
  have hwhole : (Path.cutExtension name).2 = none := by
    rw [Path.cutExtension, Text.split, Text.splitChars_of_not_mem hdot]
    rfl
  rw [ofPath?, Path.extension?, hname, Option.bind_some, String.ofList_toList, hwhole]
  decide

theorem exists_of_indexEnding? {language : Language} {ending : String}
    (h : language.indexEnding? = some ending) :
    ∃ last, ending = "/" ++ last ∧ Path.IsSegment last.toList := by
  cases language
  case python => exact ⟨"__init__", (Option.some.inj h).symm, by decide⟩
  case javascript | typescript | tsx => exact ⟨"index", (Option.some.inj h).symm, by decide⟩
  all_goals exact absurd h (by simp [indexEnding?])

end Language

namespace Import

/-- The name can be that of a file or a folder, without an extension. -/
def Name.IsPlain (n : Name) : Prop :=
  n.name ≠ "" ∧ '/' ∉ n.name.toList ∧ '.' ∉ n.name.toList

instance (n : Name) : Decidable n.IsPlain :=
  inferInstanceAs (Decidable (n.name ≠ "" ∧ '/' ∉ n.name.toList ∧ '.' ∉ n.name.toList))

namespace Resolver

variable {r : Resolver} {importer text stem folder f : String} {language : Language}
  {anchor : Anchor} {s : Statement}

/-- The files have normal paths, and their languages are known. -/
def IsIndexed (r : Resolver) : Prop :=
  ∀ f ∈ r.files, Path.IsNormal f ∧ (Language.ofPath? f).isSome = true

/-! ## Stems and folders -/

theorem IsIndexed.folder_ne_empty (h : r.IsIndexed) (hf : f ∈ r.filesIn folder) : folder ≠ "" := by
  rintro rfl
  rw [filesIn, List.mem_filter] at hf
  obtain ⟨hnormal, hknown⟩ := h f hf.1
  obtain ⟨folder, file, hfolder, hfile, rfl⟩ :=
    hnormal.exists_file (Language.ne_root_of_ofPath? hknown)
  rw [Path.parent?_render hfolder hfile.named hfile.slashless, Option.any_some,
    Path.same_render_empty] at hf
  exact absurd hf.2 (by simp)

/-- A file stands in the folder of its stem. -/
theorem IsIndexed.mem_filesIn (h : r.IsIndexed) {front last : String}
    (hlast : Path.IsSegment last.toList) (hf : f ∈ r.filesWithStem (front ++ "/" ++ last)) :
    f ∈ r.filesIn ((Path.parent? (front ++ "/" ++ last)).getD "") := by
  obtain ⟨hmem, hstem⟩ := mem_filesWithStem.mp hf
  obtain ⟨hnormal, hknown⟩ := h f hmem
  obtain ⟨folder, hfile, hfolder⟩ :=
    hnormal.parent?_withoutExtension (Language.ne_root_of_ofPath? hknown) hlast hstem
  rw [filesIn, List.mem_filter, hfile, hfolder]
  exact ⟨hmem, by simp [Path.same]⟩

/-! ## Modules of names -/

theorem subpath?_cases {ending : Bool} {folders : List String} {name : String}
    (h : r.subpath? language ending text folders name = some stem) :
    (∃ d, r.stemAt? language (d ++ "/" ++ name) = some stem) ∨
      r.stemEnding? (text ++ "/" ++ name) = some stem := by
  rw [subpath?] at h
  split at h
  next found hfound =>
    obtain rfl := Option.some.inj h
    obtain ⟨d, -, hd⟩ := List.exists_of_findSome?_eq_some hfound
    exact Or.inl ⟨d, hd⟩
  next =>
    split at h
    next => exact Or.inr h
    next => exact absurd h (by simp)

theorem exists_of_stemEnding? {name : String} (hslash : '/' ∉ name.toList)
    (h : r.stemEnding? (text ++ "/" ++ name) = some stem) :
    ∃ front, stem = front ++ "/" ++ name := by
  have hends := List.isSuffixOf_iff_suffix.mp (stemEnding?_eq_some h).1
  have htail : ("/" ++ Text.trimStartOf '/' (text ++ "/" ++ name)).toList =
      '/' :: (text.toList ++ '/' :: name.toList).dropWhile (· == '/') := by
    simp [Text.trimStartOf]
  rw [htail] at hends
  obtain ⟨front, hfront⟩ := (Text.suffix_dropWhile_slash text.toList hslash).trans hends
  refine ⟨String.ofList front, String.toList_injective ?_⟩
  rw [String.toList_append, String.toList_append, String.toList_ofList, List.append_assoc, ← hfront]
  rfl

/-- The module of a plain name is the stem of a file, and ends in a segment. -/
theorem IsIndexed.exists_of_subpath? (h : r.IsIndexed) {n : Name} (hn : n.IsPlain) {ending : Bool}
    {folders : List String} (hfound : r.subpath? language ending text folders n.name = some stem) :
    (∃ f, f ∈ r.filesWithStem stem) ∧
      ∃ front last, stem = front ++ "/" ++ last ∧ Path.IsSegment last.toList := by
  obtain ⟨hne, hslash, hdot⟩ := hn
  have hsegment := Path.isSegment_of_plain (by simpa using hne) hslash hdot
  rcases subpath?_cases hfound with ⟨d, hat⟩ | hending
  · rcases stemAt?_cases hat with ⟨hfile, -⟩ | ⟨hcompletes, hshape⟩
    · -- a file of a known language has a dot in its name
      have hknown := (h _ hfile).2
      rw [Language.ofPath?_of_dotless d hne hslash hdot] at hknown
      exact absurd hknown (by simp)
    · obtain ⟨f, hf, -⟩ := exists_of_completes (fun f hf => (h f hf).2) hcompletes
      refine ⟨⟨f, hf⟩, ?_⟩
      rcases hshape with rfl | ⟨ending, hending, rfl⟩
      · exact ⟨d, n.name, rfl, hsegment⟩
      · obtain ⟨last, rfl, hlast⟩ := Language.exists_of_indexEnding? hending
        exact ⟨d ++ "/" ++ n.name, last, String.append_assoc.symm, hlast⟩
  · obtain ⟨front, hstem⟩ := exists_of_stemEnding? hslash hending
    exact ⟨(stemEnding?_eq_some hending).2, front, n.name, hstem, hsegment⟩

/-! ## Statements -/

theorem IsIndexed.filesWithStem_ne_nil (h : r.IsIndexed) (hfresh : s.Fresh)
    (hplain : ∀ n ∈ s.names, n.IsPlain)
    (hmodule : pathOfModule? language s.module = some (text, anchor)) {n : Name}
    (hn : n ∈ (r.resolve importer language s).names) (hsubpath : n.subpath ≠ "") :
    r.filesWithStem n.subpath ≠ [] ∧ r.filesIn ((Path.parent? n.subpath).getD "") ≠ [] := by
  rw [resolve_eq hmodule] at hn
  obtain ⟨m, hm, -, hsame | hfound⟩ := exists_of_mem_withSubpaths hn
  · exact absurd (hsame.trans (hfresh.2 m hm)) hsubpath
  · obtain ⟨⟨f, hf⟩, front, last, hstem, hlast⟩ := h.exists_of_subpath? (hplain m hm) hfound
    refine ⟨List.ne_nil_of_mem hf, ?_⟩
    rw [hstem] at hf ⊢
    exact List.ne_nil_of_mem (h.mem_filesIn hlast hf)

/-- What a resolved statement names is indexed. -/
theorem IsIndexed.leads (h : r.IsIndexed) (hfresh : s.Fresh) (hplain : ∀ n ∈ s.names, n.IsPlain)
    (hmodule : pathOfModule? language s.module = some (text, anchor))
    (hresolved : (r.resolve importer language s).isResolved = true) :
    r.filesWithStem (r.resolve importer language s).path ≠ [] ∨
      r.filesIn (r.resolve importer language s).path ≠ [] := by
  rcases hfresh.path_cases hmodule hresolved with hstem | ⟨-, hfolder⟩ | ⟨n, hn, hfolder⟩
  · obtain ⟨f, hf⟩ := (finds_of_candidates hstem).exists_file fun f hf => (h f hf).2
    exact Or.inl (List.ne_nil_of_mem hf)
  · exact Or.inr hfolder
  · have hsubpath : n.subpath ≠ "" := by
      intro hempty
      rw [hempty] at hfolder
      exact Statement.path_ne_of_isResolved hresolved hfolder
    rw [hfolder]
    exact Or.inr (h.filesWithStem_ne_nil hfresh hplain hmodule hn hsubpath).2

/-- A statement that stays without a path stays as it is. -/
theorem IsIndexed.resolve_eq_self (h : r.IsIndexed) (hpath : s.path = "")
    (hplain : ∀ n ∈ s.names, n.IsPlain)
    (hmodule : pathOfModule? language s.module = some (text, anchor))
    (hempty : (r.resolve importer language s).path = "") : r.resolve importer language s = s := by
  have hresolve : r.resolve importer language s = _ := resolve_eq hmodule
  rw [hresolve] at hempty ⊢
  dsimp only at hempty ⊢
  rw [withSubpaths_eq] at hempty ⊢
  obtain ⟨-, hnames⟩ := eq_empty_of_foldl_filledBy hempty
  have hlocated : s.names.map (located (r.subpath? language (byEnding language anchor) text
      (r.nameFolders importer language text anchor))) = s.names := by
    refine (List.map_congr_left fun n hn => ?_).trans (List.map_id s.names)
    rw [located]
    split
    next => rfl
    next stem hstem =>
      obtain ⟨⟨f, hf⟩, front, last, rfl, hlast⟩ := h.exists_of_subpath? (hplain n hn) hstem
      exact absurd (hnames n hn _ hstem) (h.folder_ne_empty (h.mem_filesIn hlast hf))
  rw [hlocated, hempty, ← hpath]

/-- Among files with normal paths and known languages, a statement that is resolved leads to a stem
or a folder with files, and so does every name of it that is a module; any other statement is
unchanged. -/
theorem resolve_sound {root : String} {files : List String}
    (hfiles : ∀ f ∈ files, Path.IsNormal f ∧ (Language.ofPath? f).isSome = true)
    (importer : String) (language : Language) {s : Statement} (hfresh : s.Fresh)
    (hplain : ∀ n ∈ s.names, n.IsPlain) :
    let r := ofFiles root files
    let found := r.resolve importer language s
    (succeeds language found = true →
      (r.filesWithStem found.path ≠ [] ∨ r.filesIn found.path ≠ []) ∧
        ∀ n ∈ found.names, n.subpath ≠ "" → r.filesWithStem n.subpath ≠ []) ∧
      (succeeds language found = false → found = s) := by
  intro r found
  have hindexed : r.IsIndexed := fun f hf => hfiles f (mem_sorted.mp hf)
  have hsucceeds : succeeds language found =
      ((pathOfModule? language s.module).isSome && found.isResolved) := by
    rw [succeeds, module_resolve]
  rw [hsucceeds]
  cases hmodule : pathOfModule? language s.module with
  | none =>
      have hsame : found = s := by
        simp only [found, resolve, hmodule]
      exact ⟨fun h => absurd h (by simp), fun _ => hsame⟩
  | some p =>
      rw [Option.isSome_some, Bool.true_and]
      constructor
      · intro hresolved
        refine ⟨hindexed.leads hfresh hplain hmodule hresolved, ?_⟩
        intro n hn hsubpath
        exact (hindexed.filesWithStem_ne_nil hfresh hplain hmodule hn hsubpath).1
      · intro hresolved
        refine hindexed.resolve_eq_self hfresh.1 hplain hmodule ?_
        simpa [Statement.isResolved] using hresolved

theorem resolve_sound_byEnding :
    let r := ofFiles "/r" ["/r/src/acme/App.java", "/r/src/acme/model/User.java"]
    let found := r.resolve "/r/src/acme/App.java" .java
      { (default : Statement) with module := "acme.model", names := [⟨"User", "", ""⟩] }
    succeeds .java found = true ∧
      (r.filesWithStem found.path ≠ [] ∨ r.filesIn found.path ≠ []) ∧
        ∀ n ∈ found.names, n.subpath ≠ "" → r.filesWithStem n.subpath ≠ [] := by
  intro r found
  have hsucceeds : succeeds .java found = true := by decide +kernel
  refine ⟨hsucceeds, (resolve_sound ?_ "/r/src/acme/App.java" .java ?_ ?_).1 hsucceeds⟩
  · decide +kernel
  · exact ⟨rfl, by decide⟩
  · decide

end Resolver
end Import
end CodeAtlas

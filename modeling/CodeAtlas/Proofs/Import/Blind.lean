import CodeAtlas.Proofs.Import.Stems
import CodeAtlas.Proofs.Import.Wildcards
import CodeAtlas.Proofs.Index.Sight

/-!
# Lookups that are blind to the language

The language of a file chooses the extensions that complete what an import leaves out.  From there
on nobody asks for it: a stem is shared by files of all languages, an import may spell out any file,
a path may only have to end in what an import says, and a folder holds what it holds.  A file that
an import shows is of a compatible language, or it is found in one of these ways.
-/

namespace CodeAtlas
namespace Import

/-- What an import says is also looked for at the end of paths. -/
def byEnding (language : Language) (anchor : Anchor) : Bool :=
  anchor == .bare && language.importsByEnding

namespace Resolver

variable {r : Resolver} {importer text stem path : String} {language : Language} {anchor : Anchor}

/-- The stem of the module that an import names. -/
def moduleStem? (r : Resolver) (importer : String) (language : Language) (text : String)
    (anchor : Anchor) : Option String :=
  match (r.bases importer text anchor).findSome? (r.stemAt? language) with
  | some stem => some stem
  | none => if byEnding language anchor then r.stemEnding? text else none

/-- The folders in which the names of an import are looked for as modules. -/
def nameFolders (r : Resolver) (importer : String) (language : Language) (text : String)
    (anchor : Anchor) : List String :=
  match r.moduleStem? importer language text anchor with
  | some stem => [moduleFolder language stem]
  | none => r.bases importer text anchor

/-- The folder that an import names. -/
def namedFolder? (r : Resolver) (importer : String) (language : Language) (text : String)
    (anchor : Anchor) : Option String :=
  match (r.bases importer text anchor).find? fun b => !(r.filesIn b).isEmpty with
  | some b => some b
  | none => if byEnding language anchor then r.folderEnding? text else none

/-- A file is found under a stem without a look at its language: the stem belongs to another file,
which is of a compatible language; or the import spells out a file with this stem; or the stem has
to end in what the import says, and no more. -/
inductive FindsBlindly (r : Resolver) (language : Language) (candidates : List String)
    (ending : Bool) (text stem path : String) : Prop
  | shared (other : String) (l : Language) (hother : other ∈ r.filesWithStem stem)
      (hne : other ≠ path) (hl : Language.ofPath? other = some l)
      (hcompatible : language.compatible l = true)
  | spelled (file : String) (hfile : file ∈ r.files) (hcandidate : file ∈ candidates)
      (hstem : Path.withoutExtension file = stem)
  | ending (hending : ending = true)
      (hstem : Text.endsWith stem ("/" ++ Text.trimStartOf '/' text) = true)

end Resolver

/-- An import statement shows a file without a look at its language: by the stem of the module or
of a name, by the folder that a wildcard takes, or by the folder of a name that is a module. -/
inductive Statement.ShowsBlindly (r : Resolver) (importer : String) (language : Language)
    (s : Statement) (path : String) : Prop
  | module (text : String) (anchor : Anchor)
      (hmodule : pathOfModule? language s.module = some (text, anchor))
      (hpath : path ∈ r.filesWithStem s.path)
      (hblind : r.FindsBlindly language (r.bases importer text anchor) (byEnding language anchor)
        text s.path path)
  | name (text : String) (anchor : Anchor) (n : Name)
      (hmodule : pathOfModule? language s.module = some (text, anchor)) (hn : n ∈ s.names)
      (hpath : path ∈ r.filesWithStem n.subpath)
      (hblind : r.FindsBlindly language
        ((r.nameFolders importer language text anchor).map (· ++ "/" ++ n.name))
        (byEnding language anchor) (text ++ "/" ++ n.name) n.subpath path)
  | wildcard (hwildcard : s.wildcard = true) (hfolder : r.filesIn s.path ≠ [])
      (hpath : path ∈ r.filesWithStem s.path ∨
        r.filesWithStem s.path = [] ∧ path ∈ r.filesIn s.path)
  | nameFolder (n : Name) (hn : n ∈ s.names) (hfolder : s.path = (Path.parent? n.subpath).getD "")
      (hpath : path ∈ r.filesWithStem s.path)

namespace Resolver

variable {r : Resolver} {importer text stem path : String} {language : Language} {anchor : Anchor}

/-! ## What is found under a stem -/

/-- A stem was found: a candidate has it, an extension completes it, or it has the ending. -/
inductive Finds (r : Resolver) (language : Language) (candidates : List String) (ending : Bool)
    (text stem : String) : Prop
  | spelled (file : String) (hfile : file ∈ r.files) (hcandidate : file ∈ candidates)
      (hstem : Path.withoutExtension file = stem)
  | completed (hcompletes : r.completes language stem = true)
  | ending (hending : ending = true) (hstem : r.stemEnding? text = some stem)

theorem finds_of_candidates {candidates : List String} {ending : Bool}
    (h : (match candidates.findSome? (r.stemAt? language) with
      | some s => some s
      | none => if ending then r.stemEnding? text else none) = some stem) :
    r.Finds language candidates ending text stem := by
  split at h
  next s hfound =>
    obtain rfl := Option.some.inj h
    obtain ⟨file, hfile, hat⟩ := List.exists_of_findSome?_eq_some hfound
    rcases stemAt?_cases hat with ⟨hmem, hstem⟩ | ⟨hcompletes, -⟩
    · exact .spelled file hmem hfile hstem
    · exact .completed hcompletes
  next =>
    split at h
    next hending => exact .ending hending h
    next => exact absurd h (by simp)

namespace Finds

variable {candidates : List String} {ending : Bool}

theorem exists_file (h : r.Finds language candidates ending text stem)
    (hfiles : ∀ f ∈ r.files, (Language.ofPath? f).isSome = true) :
    ∃ f, f ∈ r.filesWithStem stem := by
  cases h with
  | spelled file hfile _ hstem => exact ⟨file, mem_filesWithStem.mpr ⟨hfile, hstem⟩⟩
  | completed hcompletes =>
      obtain ⟨f, hf, -⟩ := exists_of_completes hfiles hcompletes
      exact ⟨f, hf⟩
  | ending _ hstem => exact (stemEnding?_eq_some hstem).2

/-- Of the files with a stem that was found, those of other languages are found blindly. -/
theorem compatible_or_blindly (h : r.Finds language candidates ending text stem)
    (hfiles : ∀ f ∈ r.files, (Language.ofPath? f).isSome = true) (path : String) :
    (∃ l, Language.ofPath? path = some l ∧ language.compatible l = true) ∨
      r.FindsBlindly language candidates ending text stem path := by
  cases h with
  | spelled file hfile hcandidate hstem => exact Or.inr (.spelled file hfile hcandidate hstem)
  | completed hcompletes =>
      obtain ⟨f, hf, l, hl, hcompatible⟩ := exists_of_completes hfiles hcompletes
      by_cases hsame : f = path
      · exact Or.inl ⟨l, hsame ▸ hl, hcompatible⟩
      · exact Or.inr (.shared f l hf hsame hl hcompatible)
  | ending hending hstem => exact Or.inr (.ending hending (stemEnding?_eq_some hstem).1)

end Finds

/-! ## What a statement is resolved to -/

/-- A name keeps what it says, and gets the module that was found for it. -/
theorem exists_of_mem_withSubpaths {find : String → Option String} {names : List Name} {n : Name}
    (h : n ∈ (withSubpaths find names path).1) :
    ∃ m ∈ names, m.name = n.name ∧ (n.subpath = m.subpath ∨ find m.name = some n.subpath) := by
  induction names generalizing path with
  | nil => exact absurd h (by simp [withSubpaths])
  | cons m names ih =>
      rw [withSubpaths] at h
      split at h
      next =>
        rcases List.mem_cons.mp h with rfl | h
        · exact ⟨n, List.mem_cons_self, rfl, Or.inl rfl⟩
        · obtain ⟨m', hm', hfound⟩ := ih h
          exact ⟨m', List.mem_cons_of_mem m hm', hfound⟩
      next s hfind =>
        rcases List.mem_cons.mp h with rfl | h
        · exact ⟨m, List.mem_cons_self, rfl, Or.inr hfind⟩
        · obtain ⟨m', hm', hfound⟩ := ih h
          exact ⟨m', List.mem_cons_of_mem m hm', hfound⟩

/-- The path of a statement stays, or it becomes the folder of a name that is a module. -/
theorem path_withSubpaths (find : String → Option String) (names : List Name) (path : String) :
    (withSubpaths find names path).2 = path ∨
      ∃ n ∈ (withSubpaths find names path).1,
        (withSubpaths find names path).2 = (Path.parent? n.subpath).getD "" := by
  induction names generalizing path with
  | nil => exact Or.inl rfl
  | cons m names ih =>
      rw [withSubpaths]
      split
      next =>
        rcases ih path with hsame | ⟨n, hn, hfolder⟩
        · exact Or.inl hsame
        · exact Or.inr ⟨n, List.mem_cons_of_mem m hn, hfolder⟩
      next s hfind =>
        rcases ih (if path.isEmpty then (Path.parent? s).getD "" else path) with
          hsame | ⟨n, hn, hfolder⟩
        · dsimp only
          rw [hsame]
          split
          next => exact Or.inr ⟨{ m with subpath := s }, List.mem_cons_self, rfl⟩
          next => exact Or.inl rfl
        · exact Or.inr ⟨n, List.mem_cons_of_mem _ hn, hfolder⟩

theorem resolve_eq {s : Statement}
    (hmodule : pathOfModule? language s.module = some (text, anchor)) :
    r.resolve importer language s =
      let found := match r.moduleStem? importer language text anchor with
        | some stem => stem
        | none =>
          if s.wildcard then (r.namedFolder? importer language text anchor).getD s.path else s.path
      let names := withSubpaths (r.subpath? language (byEnding language anchor) text
        (r.nameFolders importer language text anchor)) s.names found
      { s with names := names.1, path := names.2 } := by
  rw [resolve, hmodule]
  rfl

theorem filesIn_ne_nil_of_namedFolder? {folder : String}
    (h : r.namedFolder? importer language text anchor = some folder) : r.filesIn folder ≠ [] := by
  rw [namedFolder?] at h
  split at h
  next b hfound =>
    obtain rfl := Option.some.inj h
    simpa using List.find?_some hfound
  next =>
    split at h
    next =>
      rw [folderEnding?] at h
      obtain ⟨f, hf, hparent⟩ := List.mem_filterMap.mp (List.mem_of_find?_eq_some h)
      have hmem : f ∈ r.filesIn folder := by
        rw [filesIn, List.mem_filter, hparent]
        exact ⟨hf, by simp [Path.same]⟩
      exact List.ne_nil_of_mem hmem
    next => exact absurd h (by simp)

end Resolver

/-- Nothing was found for the statement yet. -/
def Statement.Fresh (s : Statement) : Prop := s.path = "" ∧ ∀ n ∈ s.names, n.subpath = ""

theorem subpath_addName {name otherName : String} {names : List Name}
    (h : ∀ n ∈ names, n.subpath = "") : ∀ n ∈ addName name otherName names, n.subpath = "" := by
  induction names with
  | nil => simp [addName]
  | cons n names ih =>
      rw [List.forall_mem_cons] at h
      rw [addName]
      split
      next =>
        refine List.forall_mem_cons.mpr ⟨?_, h.2⟩
        split <;> exact h.1
      next => exact List.forall_mem_cons.mpr ⟨h.1, ih h.2⟩

/-- As they are read, statements are fresh. -/
theorem fresh_statements (language : Language) (content : String) :
    ∀ s ∈ (Survey.of language content).imports, s.Fresh := by
  intro s hs
  obtain ⟨d, -, hs⟩ := List.mem_flatMap.mp hs
  refine forall_statements (P := Statement.Fresh) ?_ ?_ ?_ s hs
  · exact fun m => ⟨rfl, by simp [Draft.blank]⟩
  · rintro p - s ⟨hpath, hnames⟩
    rw [Statement.add]
    split
    next => exact ⟨hpath, subpath_addName hnames⟩
    next => exact ⟨hpath, hnames⟩
    next => exact ⟨hpath, hnames⟩
  · rintro s ⟨hpath, hnames⟩
    rw [Draft.named]
    split <;> exact ⟨hpath, hnames⟩

theorem Statement.path_ne_of_isResolved {s : Statement} (h : s.isResolved = true) :
    s.path ≠ "" := by
  rintro hpath
  rw [isResolved, hpath] at h
  exact absurd h (by decide)

/-- A fresh statement is resolved to a module, to the folder that a wildcard takes, or to the folder
of a name that is a module. -/
theorem Statement.Fresh.path_cases {s : Statement} (h : s.Fresh) {r : Resolver}
    {importer text : String} {language : Language} {anchor : Anchor}
    (hmodule : pathOfModule? language s.module = some (text, anchor))
    (hresolved : (r.resolve importer language s).isResolved = true) :
    r.moduleStem? importer language text anchor = some (r.resolve importer language s).path ∨
      (s.wildcard = true ∧ r.filesIn (r.resolve importer language s).path ≠ []) ∨
      ∃ n ∈ (r.resolve importer language s).names,
        (r.resolve importer language s).path = (Path.parent? n.subpath).getD "" := by
  have hne := path_ne_of_isResolved hresolved
  rw [Resolver.resolve_eq hmodule] at hne ⊢
  dsimp only at hne ⊢
  rcases Resolver.path_withSubpaths _ s.names _ with hsame | ⟨n, hn, hfolder⟩
  · rw [hsame] at hne ⊢
    split at hne
    next stem hstem =>
      rw [hstem]
      exact Or.inl rfl
    next hnone =>
      rw [hnone]
      split at hne
      next hwildcard =>
        rw [if_pos hwildcard]
        cases hnamed : r.namedFolder? importer language text anchor with
        | some folder =>
            exact Or.inr (Or.inl ⟨hwildcard, Resolver.filesIn_ne_nil_of_namedFolder? hnamed⟩)
        | none =>
            rw [hnamed] at hne
            exact absurd h.1 hne
      next => exact absurd h.1 hne
  · exact Or.inr (Or.inr ⟨n, hn, hfolder⟩)

/-- A name of a resolved statement that is a module was found as one. -/
theorem Statement.Fresh.finds_subpath {s : Statement} (h : s.Fresh) {r : Resolver}
    {importer text : String} {language : Language} {anchor : Anchor} {n : Name}
    (hmodule : pathOfModule? language s.module = some (text, anchor))
    (hn : n ∈ (r.resolve importer language s).names) (hsubpath : n.subpath ≠ "") :
    r.Finds language ((r.nameFolders importer language text anchor).map (· ++ "/" ++ n.name))
      (byEnding language anchor) (text ++ "/" ++ n.name) n.subpath := by
  rw [Resolver.resolve_eq hmodule] at hn
  obtain ⟨m, hm, hname, hsame | hfound⟩ := Resolver.exists_of_mem_withSubpaths hn
  · exact absurd (hsame.trans (h.2 m hm)) hsubpath
  · apply Resolver.finds_of_candidates
    rw [List.findSome?_map, ← hname]
    exact hfound

/-- A file that a resolved statement shows is of a compatible language or is shown blindly. -/
theorem Statement.Fresh.compatible_or_showsBlindly {s : Statement} (h : s.Fresh) {r : Resolver}
    (hfiles : ∀ f ∈ r.files, (Language.ofPath? f).isSome = true) {importer path : String}
    {language : Language} (hshows : (r.resolve importer language s).Shows r language path) :
    (∃ l, Language.ofPath? path = some l ∧ language.compatible l = true) ∨
      (r.resolve importer language s).ShowsBlindly r importer language path := by
  cases hmodule : pathOfModule? language s.module with
  | none =>
      rw [Resolver.resolve, hmodule] at hshows
      rcases hshows with ⟨hresolved, -⟩ | ⟨hresolved, -⟩ | ⟨n, hn, hsubpath, -⟩
      · exact absurd h.1 (path_ne_of_isResolved hresolved)
      · exact absurd h.1 (path_ne_of_isResolved hresolved)
      · exact absurd (h.2 n hn) hsubpath
  | some found =>
      obtain ⟨text, anchor⟩ := found
      have hkeeps : (r.resolve importer language s).module = s.module ∧
          (r.resolve importer language s).wildcard = s.wildcard := by
        rw [Resolver.resolve_eq hmodule]
        exact ⟨rfl, rfl⟩
      have hmodule' := hkeeps.1 ▸ hmodule
      rcases hshows with ⟨hresolved, hpath⟩ | ⟨hresolved, hwhole, hnone, hpath⟩ |
        ⟨n, hn, hsubpath, hpath⟩
      · rcases h.path_cases hmodule hresolved with hstem | ⟨hwildcard, hfolder⟩ | ⟨n, hn, hfolder⟩
        · have hfinds := Resolver.finds_of_candidates hstem
          exact (hfinds.compatible_or_blindly hfiles path).imp_right
            (.module text anchor hmodule' hpath)
        · exact Or.inr (.wildcard (hkeeps.2 ▸ hwildcard) hfolder (Or.inl hpath))
        · exact Or.inr (.nameFolder n hn hfolder hpath)
      · rcases h.path_cases hmodule hresolved with hstem | ⟨hwildcard, hfolder⟩ | ⟨n, hn, -⟩
        · -- a module that was found has a file, so that its folder is not looked at
          obtain ⟨f, hf⟩ := (Resolver.finds_of_candidates hstem).exists_file hfiles
          rw [hnone] at hf
          exact absurd hf (by simp)
        · exact Or.inr (.wildcard (hkeeps.2 ▸ hwildcard) hfolder (Or.inr ⟨hnone, hpath⟩))
        · rcases hwhole with hwildcard | ⟨hnames, -⟩
          · exact Or.inr (.wildcard hwildcard (List.ne_nil_of_mem hpath) (Or.inr ⟨hnone, hpath⟩))
          · rw [hnames] at hn
            exact absurd hn (by simp)
      · have hfinds := h.finds_subpath hmodule hn hsubpath
        exact (hfinds.compatible_or_blindly hfiles path).imp_right
          (.name text anchor n hmodule' hn hpath)

end Import
end CodeAtlas

import CodeAtlas.Proofs.Import.Blind

/-!
# Resolving an import twice

Where a module or a name is found does not depend on what was found before.  Only the path of a
statement does: it is kept when nothing takes its place, and an empty one is filled in by the first
name that is a module.  So a statement that is resolved again among the same files stays as it is,
whatever it held when it was resolved first.
-/

namespace CodeAtlas
namespace Import
namespace Resolver

variable {find : String → Option String} {path : String}

/-- The name with the module that is found for it. -/
def located (find : String → Option String) (n : Name) : Name :=
  match find n.name with
  | none => n
  | some s => { n with subpath := s }

/-- The path of a statement after one of its names was looked for. -/
def filledBy (find : String → Option String) (path : String) (n : Name) : String :=
  match find n.name with
  | none => path
  | some s => if path.isEmpty then (Path.parent? s).getD "" else path

theorem withSubpaths_eq (find : String → Option String) (names : List Name) (path : String) :
    withSubpaths find names path =
      (names.map (located find), names.foldl (filledBy find) path) := by
  induction names generalizing path with
  | nil => rfl
  | cons n names ih =>
      rw [withSubpaths, List.map_cons, List.foldl_cons, located, filledBy]
      cases find n.name with
      | none => simp only [ih]
      | some s => simp only [ih]

/-! ## Names -/

theorem name_located (find : String → Option String) (n : Name) :
    (located find n).name = n.name := by
  rw [located]
  split <;> rfl

theorem located_located (find : String → Option String) (n : Name) :
    located find (located find n) = located find n := by
  conv_lhs => rw [located, name_located]
  cases hfind : find n.name with
  | none => rfl
  | some s => rw [located, hfind]

/-! ## Paths -/

/-- A path that is there already is kept. -/
theorem foldl_filledBy_of_ne_empty (find : String → Option String) (hpath : path ≠ "")
    (names : List Name) :
    names.foldl (filledBy find) path = path := by
  induction names with
  | nil => rfl
  | cons n names ih =>
      have hstep : filledBy find path n = path := by
        rw [filledBy]
        split
        · rfl
        · rw [if_neg (by simpa using hpath)]
      rw [List.foldl_cons, hstep, ih]

/-- A path that is still empty was empty before, and no name filled it in. -/
theorem eq_empty_of_foldl_filledBy {names : List Name} (h : names.foldl (filledBy find) path = "") :
    path = "" ∧
      ∀ n ∈ names, ∀ stem, find n.name = some stem → (Path.parent? stem).getD "" = "" := by
  induction names generalizing path with
  | nil => exact ⟨h, by simp⟩
  | cons n names ih =>
      obtain ⟨hstep, hnames⟩ := ih h
      rw [filledBy] at hstep
      have hpath : path = "" := by
        by_contra hne
        split at hstep
        · exact hne hstep
        · rw [if_neg (by simpa using hne)] at hstep
          exact hne hstep
      refine ⟨hpath, List.forall_mem_cons.mpr ⟨?_, hnames⟩⟩
      intro stem hstem
      rw [hstem, hpath] at hstep
      exact hstep

/-- A path that was filled in is not filled in again. -/
theorem foldl_filledBy_again (names : List Name) (path : String) :
    names.foldl (filledBy find) (names.foldl (filledBy find) path) =
      names.foldl (filledBy find) path := by
  by_cases hpath : path = ""
  · by_cases hfilled : names.foldl (filledBy find) path = ""
    · rw [hfilled, ← hpath]
      exact hfilled.trans hpath.symm
    · exact foldl_filledBy_of_ne_empty find hfilled names
  · have hkept := foldl_filledBy_of_ne_empty find hpath names
    rw [hkept, hkept]

/-- Only what the names say counts for the path. -/
theorem foldl_filledBy_located (names : List Name) (path : String) :
    (names.map (located find)).foldl (filledBy find) path =
      names.foldl (filledBy find) path := by
  rw [List.foldl_map]
  congr 1
  funext path n
  rw [filledBy, name_located, filledBy]

/-! ## Statements -/

/-- The path of a statement before its names are looked for: that of the module or of the folder
that it names, and else the one that it had. -/
def foundPath (r : Resolver) (importer : String) (language : Language) (text : String)
    (anchor : Anchor) (wildcard : Bool) (path : String) : String :=
  match r.moduleStem? importer language text anchor with
  | some stem => stem
  | none => if wildcard then (r.namedFolder? importer language text anchor).getD path else path

/-- What is found takes the place of the path, or the path is kept. -/
theorem foundPath_cases (r : Resolver) (importer : String) (language : Language) (text : String)
    (anchor : Anchor) (wildcard : Bool) :
    (∃ found, ∀ path, r.foundPath importer language text anchor wildcard path = found) ∨
      ∀ path, r.foundPath importer language text anchor wildcard path = path := by
  simp only [foundPath]
  cases r.moduleStem? importer language text anchor with
  | some stem => exact Or.inl ⟨stem, fun _ => rfl⟩
  | none =>
      cases wildcard with
      | false => exact Or.inr fun _ => rfl
      | true =>
          cases r.namedFolder? importer language text anchor with
          | some folder => exact Or.inl ⟨folder, fun _ => rfl⟩
          | none => exact Or.inr fun _ => rfl

theorem module_resolve (r : Resolver) (importer : String) (language : Language) (s : Statement) :
    (r.resolve importer language s).module = s.module := by
  rw [resolve]
  split <;> rfl

/-- Resolving a statement twice among the same files is resolving it once. -/
theorem resolve_resolve (r : Resolver) (importer : String) (language : Language) (s : Statement) :
    r.resolve importer language (r.resolve importer language s) =
      r.resolve importer language s := by
  cases hmodule : pathOfModule? language s.module with
  | none =>
      have hsame : r.resolve importer language s = s := by rw [resolve, hmodule]
      rw [hsame, hsame]
  | some found =>
      obtain ⟨text, anchor⟩ := found
      let find := r.subpath? language (byEnding language anchor) text
        (r.nameFolders importer language text anchor)
      have hresolve : ∀ t : Statement, t.module = s.module → t.wildcard = s.wildcard →
          r.resolve importer language t =
            { t with
              names := t.names.map (located find)
              path := t.names.foldl (filledBy find)
                (r.foundPath importer language text anchor s.wildcard t.path) } := by
        intro t ht hwildcard
        rw [resolve_eq (ht ▸ hmodule), ← hwildcard]
        dsimp only
        rw [withSubpaths_eq]
        rfl
      have honce := hresolve s rfl rfl
      rw [hresolve (r.resolve importer language s) (module_resolve r importer language s)
        (by rw [honce]), honce]
      dsimp only
      rw [List.map_map, foldl_filledBy_located]
      congr 1
      · apply List.map_congr_left
        intro n _
        exact located_located find n
      · rcases r.foundPath_cases importer language text anchor s.wildcard with
          ⟨path, hpath⟩ | hpath
        · rw [hpath, hpath]
        · rw [hpath, hpath, foldl_filledBy_again]

end Resolver
end Import
end CodeAtlas

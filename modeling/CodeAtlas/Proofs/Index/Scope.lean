import CodeAtlas.Index
import CodeAtlas.Proofs.Names

/-!
# What the names of a file stand for

The names in scope of a file come from three places: its own entities, its import statements, and
the files of its package.  What an import brings into scope is a list of names with ids, so that a
name stands for the last of the own entities that goes by it, and else for what the first of the
imports binds it to.
-/

namespace CodeAtlas
namespace Index

/-! ## Names that are bound -/

/-- The name that what is below an imported entity gets. -/
def nameBelow? (key : String) (e d : Entity) : Option String :=
  if e.kind == .file then some (key ++ "." ++ d.label)
  else
    match Text.dropBeginning? e.label d.label with
    | some rest => if Text.startsWith rest "." then some (key ++ rest) else none
    | none => none

/-- The names under which an entity and what is below it become known. -/
def treeBindings (x : Index) (key : String) (e : Entity) : List (String × String) :=
  (key, e.id) :: (x.descendants e.id).filterMap fun d =>
    (nameBelow? key e d).map fun name => (name, d.id)

/-- The names that entities bring into scope under their labels. -/
def labelBindings (x : Index) (es : List Entity) : List (String × String) :=
  es.flatMap fun e => x.treeBindings e.label e

/-- The names that one imported name brings into scope. -/
def nameBindings (x : Index) (files : List Entity) (n : Import.Name) : List (String × String) :=
  match x.importTarget? files n with
  | some e => x.treeBindings n.name e
  | none => []

/-- The names that an import statement brings into scope. -/
def statementBindings (x : Index) (language : Language) (s : Import.Statement) :
    List (String × String) :=
  if !s.isResolved then []
  else
    let files := x.filesWithStem s.path
    if s.wildcard || (s.names.isEmpty && language.importsWholeFiles) then
      let files :=
        if files.isEmpty then (x.resolver.filesIn s.path).filterMap x.find? else files
      files.flatMap fun f => x.labelBindings ((x.topOf f.id).filter (·.exportable))
    else if s.names.isEmpty then
      match files.head? with
      | some f => x.treeBindings s.scopeToken f
      | none => []
    else s.names.flatMap (x.nameBindings files)

/-- The names that the import statements of a file bring into scope. -/
def importBindings (x : Index) (file : Entity) : List (String × String) :=
  file.imports.flatMap (x.statementBindings file.language)

/-- The names that the other files of the package bring into scope. -/
def packageBindings (x : Index) (file : Entity) (id : String) : List (String × String) :=
  (x.packageFiles file id).flatMap fun f => x.labelBindings (x.topOf f)

/-- The last entity of a file that goes by a name. -/
def ownId? (x : Index) (id key : String) : Option String :=
  ((x.descendants id).filter fun d => d.label = key || d.name = key).getLast?.map (·.id)

/-! ## The names in scope are the bound names -/

variable (x : Index)

theorem importTree_eq (names : Names) (key : String) (e : Entity) :
    x.importTree names key e = names.importMany (x.treeBindings key e) := by
  rw [importTree, treeBindings, Names.importMany, List.foldl_cons, List.foldl_filterMap]
  congr 1
  funext n d
  by_cases hkind : e.kind = .file
  · simp [nameBelow?, hkind]
  · cases hrest : Text.dropBeginning? e.label d.label with
    | none => simp [nameBelow?, hkind, hrest]
    | some rest => cases hdot : Text.startsWith rest "." <;> simp [nameBelow?, hkind, hrest, hdot]

theorem importAll_eq (names : Names) (es : List Entity) :
    x.importAll names es = names.importMany (x.labelBindings es) := by
  rw [importAll, labelBindings, Names.importMany, List.foldl_flatMap]
  simp only [importTree_eq, Names.importMany]

theorem importStatement_eq (language : Language) (names : Names) (s : Import.Statement) :
    x.importStatement language names s = names.importMany (x.statementBindings language s) := by
  rw [importStatement, statementBindings]
  split
  next => rfl
  next =>
    dsimp only
    split
    next =>
      simp only [importAll_eq]
      exact List.foldl_flatMap.symm
    next =>
      split
      next =>
        cases (x.filesWithStem s.path).head? with
        | none => rfl
        | some f => exact importTree_eq x names s.scopeToken f
      next =>
        rw [Names.importMany, List.foldl_flatMap]
        congr 1
        funext n name
        rw [nameBindings]
        cases x.importTarget? (x.filesWithStem s.path) name with
        | none => rfl
        | some e => exact importTree_eq x n name.name e

theorem namesIn_eq {id : String} {file : Entity} (hfile : x.find? id = some file) :
    x.namesIn id =
      (Names.empty.defineMany (x.descendants id)).importMany
        (x.importBindings file ++ x.packageBindings file id) := by
  rw [namesIn, hfile, Names.importMany_append]
  simp only [importAll_eq, Names.importMany, importBindings, packageBindings, List.foldl_flatMap]
  congr 1
  congr 1
  funext n s
  exact importStatement_eq x file.language n s

/-- A name stands for an own entity before anything else, and else for what the first import that
binds it says. -/
theorem find?_namesIn {id key : String} {file : Entity} (hfile : x.find? id = some file)
    (hkey : key ≠ "") :
    (x.namesIn id).find? key =
      ((x.ownId? id key).or ((x.importBindings file).lookup key)).or
        ((x.packageBindings file id).lookup key) := by
  rw [x.namesIn_eq hfile, Names.find?_importMany hkey, Names.find?_defineMany hkey,
    Names.find?_empty, Option.or_none, List.lookup_append, Option.or_assoc]
  rfl

end Index
end CodeAtlas

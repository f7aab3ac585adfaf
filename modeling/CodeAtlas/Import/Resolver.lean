import CodeAtlas.Import.Statement
import CodeAtlas.Language

/-!
# Finding what an import names

A module is looked for among the indexed files, by its path without an extension: the *stem* of a
file.  Where to look depends on the module text.  A text such as `./a` starts at the folder of the
importing file, `@/a` at the root of the index, `/a` at the root of the file system or of the
index, and any other at the folder of the importing file and then at the root.  In some languages
such a text may also name the end of a path.

The search asks the given list of files only, never a file system.
-/

namespace CodeAtlas
namespace Import

/-- The files of an index and the folder that they belong to. -/
structure Resolver where
  root : String
  files : List String
deriving Repr, Inhabited, DecidableEq

/-- Where the search for a module starts. -/
inductive Anchor where
  | relative
  | absolute
  | root
  | bare
deriving DecidableEq, Repr

/-- Puts a text into a sorted list without repetitions. -/
def insertSorted (s : String) : List String → List String
  | [] => [s]
  | t :: rest =>
    if s = t then t :: rest
    else if s < t then s :: t :: rest
    else t :: insertSorted s rest

/-- The texts in order, each once. -/
def sorted (texts : List String) : List String :=
  texts.foldl (fun done s => insertSorted s done) []

/-- The path that a dotted module names; each opening dot but the first one goes up a folder. -/
def dottedPath (module : String) : String :=
  let dots := (module.toList.takeWhile (· == '.')).length
  let rest := Text.replaceChar '.' '/' (String.ofList (module.toList.drop dots))
  match dots with
  | 0 => rest
  | 1 => if rest.isEmpty then "." else "./" ++ rest
  | n + 1 =>
    let up := Text.repeated "../" n
    if rest.isEmpty then Text.trimEndOf '/' up else up ++ rest

/-- The path that a module text stands for, and where the search for it starts. -/
def pathOfModule? (language : Language) (module : String) : Option (String × Anchor) :=
  if language == .c && Text.startsWith module "<" then none
  else
    let path := match language with
      | .python => dottedPath module
      | .java => Text.replaceChar '.' '/' module
      | .php => Text.replaceChar '\\' '/' module
      | .javascript | .typescript | .tsx | .c => module
    if path.isEmpty then none
    else if path == "." || path == ".." || Text.startsWith path "./" ||
        Text.startsWith path "../" then
      some (path, .relative)
    else
      match Text.dropBeginning? "@/" path with
      | some rest => some (rest, .root)
      | none => some (path, if Text.startsWith path "/" then .absolute else .bare)

/-- The folder whose modules a module holds. -/
def moduleFolder (language : Language) (stem : String) : String :=
  match language.indexEnding? with
  | none => stem
  | some ending => (Text.dropEnding? ending stem).getD stem

namespace Resolver

/-- The files in order, each once. -/
def ofFiles (root : String) (files : List String) : Resolver := ⟨root, sorted files⟩

/-- The files with a stem. -/
def filesWithStem (r : Resolver) (stem : String) : List String :=
  r.files.filter fun f => Path.withoutExtension f == stem

/-- The first file with a stem. -/
def fileWithStem? (r : Resolver) (stem : String) : Option String :=
  (r.filesWithStem stem).head?

/-- The files that stand directly in a folder. -/
def filesIn (r : Resolver) (folder : String) : List String :=
  r.files.filter fun f => (Path.parent? f).any (Path.same · folder)

/-- The stems of all files in order. -/
def stems (r : Resolver) : List String :=
  sorted (r.files.map Path.withoutExtension)

/-- The path is that of a file but for an extension that imports leave out. -/
def completes (r : Resolver) (language : Language) (path : String) : Bool :=
  language.importExtensions.any fun e => r.files.contains (path ++ "." ++ e)

/-- The stem of the file that a path names: the file itself, the file with an extension left
out, or the file that stands for the folder. -/
def stemAt? (r : Resolver) (language : Language) (path : String) : Option String :=
  if r.files.contains path then some (Path.withoutExtension path)
  else if r.completes language path then some path
  else
    match language.indexEnding? with
    | none => none
    | some ending =>
      if r.completes language (path ++ ending) then some (path ++ ending) else none

/-- The first stem that ends with a path. -/
def stemEnding? (r : Resolver) (path : String) : Option String :=
  r.stems.find? fun s => Text.endsWith s ("/" ++ Text.trimStartOf '/' path)

/-- The folder of the first file whose folder ends with a path. -/
def folderEnding? (r : Resolver) (path : String) : Option String :=
  (r.files.filterMap Path.parent?).find? fun d =>
    Text.endsWith d ("/" ++ Text.trimStartOf '/' path)

/-- The paths at which a module is looked for, in order. -/
def bases (r : Resolver) (importer path : String) : Anchor → List String
  | .relative => [Path.join ((Path.parent? importer).getD "/") path]
  | .absolute => [Path.normalize path, Path.join r.root (Text.trimStartOf '/' path)]
  | .root => [Path.join r.root path]
  | .bare => [Path.join ((Path.parent? importer).getD "/") path, Path.join r.root path]

/-- The stem that an imported name has as a module of its own. -/
def subpath? (r : Resolver) (language : Language) (byEnding : Bool) (path : String)
    (folders : List String) (name : String) : Option String :=
  match folders.findSome? fun d => r.stemAt? language (d ++ "/" ++ name) with
  | some s => some s
  | none => if byEnding then r.stemEnding? (path ++ "/" ++ name) else none

/-- Gives the names their modules; the first module found also says where the statement leads,
if nothing else does. -/
def withSubpaths (find : String → Option String) : List Name → String → List Name × String
  | [], path => ([], path)
  | n :: rest, path =>
    match find n.name with
    | none =>
      let (names, path) := withSubpaths find rest path
      (n :: names, path)
    | some s =>
      let path := if path.isEmpty then (Path.parent? s).getD "" else path
      let (names, path) := withSubpaths find rest path
      ({ n with subpath := s } :: names, path)

/-- Looks for what a statement of a file names.  A statement for which nothing is found keeps
what it had. -/
def resolve (r : Resolver) (importer : String) (language : Language) (s : Statement) :
    Statement :=
  match pathOfModule? language s.module with
  | none => s
  | some (path, anchor) =>
    let bases := r.bases importer path anchor
    let byEnding := anchor == .bare && language.importsByEnding
    let module? := match bases.findSome? (r.stemAt? language) with
      | some stem => some stem
      | none => if byEnding then r.stemEnding? path else none
    let folder? := match bases.find? fun b => !(r.filesIn b).isEmpty with
      | some b => some b
      | none => if byEnding then r.folderEnding? path else none
    let found := match module? with
      | some stem => stem
      | none => if s.wildcard then folder?.getD s.path else s.path
    let folders := match module? with
      | some stem => [moduleFolder language stem]
      | none => bases
    let (names, found) := withSubpaths (r.subpath? language byEnding path folders) s.names found
    { s with names := names, path := found }

/-- The statement leads to something that is indexed; a text that never names a file does
not, whatever was found for it before. -/
def succeeds (language : Language) (s : Statement) : Bool :=
  (pathOfModule? language s.module).isSome && s.isResolved

end Resolver
end Import
end CodeAtlas

import CodeAtlas.Glob.Reader
import CodeAtlas.Settings

/-!
# Exclusions

The patterns that settings exclude.  An excluded folder is excluded at any depth, with everything
in it, and an excluded ending excludes every path that ends with it.  Both may use the signs of
file name patterns, whose wildcards also stand for slashes here.
-/

namespace CodeAtlas

/-- Patterns of paths that are passed over. -/
structure Exclusion where
  patterns : List Glob

namespace Exclusion

/-- A setting that is not a pattern. -/
inductive Error where
  | folder (name : String)
  | ending (text : String)
deriving DecidableEq, Repr

/-- The wording of an error. -/
def Error.message : Error → String
  | .folder name => "invalid folder exclusion: " ++ name
  | .ending text => "invalid extension exclusion: " ++ text

/-- How exclusions are read. -/
def style : Glob.Style := ⟨false, false⟩

/-- The texts of the patterns of a folder. -/
def folderTexts (name : String) : List String := ["**/" ++ name, "**/" ++ name ++ "/**"]

/-- The text of the pattern of an ending. -/
def endingText (ending : String) : String := "**/*" ++ ending

/-- The patterns of a folder. -/
def ofFolder (name : String) : Except Error (List Glob) :=
  match (folderTexts name).mapM (Glob.read? style) with
  | some globs => .ok globs
  | none => .error (.folder name)

/-- The patterns of an ending. -/
def ofEnding (ending : String) : Except Error (List Glob) :=
  match Glob.read? style (endingText ending) with
  | some glob => .ok [glob]
  | none => .error (.ending ending)

/-- The exclusions of some settings. -/
def ofSettings (s : Settings) : Except Error Exclusion := do
  let folders ← s.excludedFolders.mapM ofFolder
  let endings ← s.excludedEndings.mapM ofEnding
  return ⟨folders.flatten ++ endings.flatten⟩

/-- A path below the indexed folder is excluded. -/
def excludes (x : Exclusion) (path : String) : Bool := x.patterns.any (·.accepts path)

end Exclusion
end CodeAtlas

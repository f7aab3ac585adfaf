import CodeAtlas.Json.Members
import CodeAtlas.Language

/-!
# Settings

What a run excludes and where it writes its results.  Settings are kept in a JSON file.  A file
that is missing or that does not hold settings stands for the default ones, and so does every
member that it leaves out.
-/

namespace CodeAtlas

/-- What is excluded from an index and where its results are written. -/
structure Settings where
  excludedFolders : List String
  excludedEndings : List String
  respectIgnoreFiles : Bool
  includeHidden : Bool
  parallel : Bool
  recordsOutput : String
  linksOutput : String
deriving DecidableEq, Repr

namespace Settings

/-- The settings of a run without a file of its own. -/
def standard : Settings where
  excludedFolders := [".git", ".vscode", "venv", "node_modules", "dist", "__pycache__"]
  excludedEndings := generatedEndings
  respectIgnoreFiles := true
  includeHidden := false
  parallel := true
  recordsOutput := "nodes.json"
  linksOutput := "links.json"

instance : Inhabited Settings := ⟨standard⟩

/-- The members of the JSON object, in order. -/
def memberNames : List String :=
  ["excluded_folders", "excluded_extensions", "respect_gitignore", "include_hidden", "parallel",
    "nodes_output", "links_output"]

/-! ## Writing -/

/-- A list of texts. -/
def textsJson (texts : List String) : Json := .array (texts.map .string)

/-- The values of the members, in order. -/
def memberValues (s : Settings) : List Json :=
  [textsJson s.excludedFolders, textsJson s.excludedEndings, .bool s.respectIgnoreFiles,
    .bool s.includeHidden, .bool s.parallel, .string s.recordsOutput, .string s.linksOutput]

/-- The settings as JSON. -/
def toJson (s : Settings) : Json := .object (memberNames.zip s.memberValues)

/-- The text of the file that holds the settings. -/
def text (s : Settings) : String := s.toJson.pretty

/-! ## Reading -/

open Json (text? truth? list? orElse)

/-- The settings whose members are found by a function. -/
def ofMembers? (member : String → Option Json) : Option Settings := do
  let folders ← orElse standard.excludedFolders (list? text?) (member "excluded_folders")
  let endings ← orElse standard.excludedEndings (list? text?) (member "excluded_extensions")
  let ignoring ← orElse standard.respectIgnoreFiles truth? (member "respect_gitignore")
  let hidden ← orElse standard.includeHidden truth? (member "include_hidden")
  let parallel ← orElse standard.parallel truth? (member "parallel")
  let records ← orElse standard.recordsOutput text? (member "nodes_output")
  let links ← orElse standard.linksOutput text? (member "links_output")
  some ⟨folders, endings, ignoring, hidden, parallel, records, links⟩

/-- The settings that a JSON value holds. -/
def ofJson? (v : Json) : Option Settings := (v.members? memberNames).bind ofMembers?

/-- The settings in a text. -/
def read? (text : String) : Option Settings := (Json.read? text).bind ofJson?

/-- The settings of a file, which may be missing. -/
def load (file : Option String) : Settings := (file.bind read?).getD standard

/-! ## Validity -/

/-- What is wrong with where the results are to be written. -/
inductive Problem where
  | noRecordsOutput
  | noLinksOutput
  | sameOutputs
deriving DecidableEq, Repr

/-- The wording of a problem. -/
def Problem.message : Problem → String
  | .noRecordsOutput => "nodes_output must not be empty"
  | .noLinksOutput => "links_output must not be empty"
  | .sameOutputs => "nodes_output and links_output must differ"

/-- The first problem of the settings. -/
def problem? (s : Settings) : Option Problem :=
  if s.recordsOutput == "" then some .noRecordsOutput
  else if s.linksOutput == "" then some .noLinksOutput
  else if s.recordsOutput == s.linksOutput then some .sameOutputs
  else none

end Settings
end CodeAtlas

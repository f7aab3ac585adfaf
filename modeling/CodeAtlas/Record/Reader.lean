import CodeAtlas.Json.Members
import CodeAtlas.Record

/-!
# Reading records

Records and links as they are read back from JSON.  The line of a link, the parent and the imports
of an entity and the wildcard mark of an import may be left out; everything else must be there.
-/

namespace CodeAtlas

open Json (text? truth? word? list? nullable? named? orElse)

/-- The label with a name. -/
def LinkLabel.ofName? : String → Option LinkLabel
  | "calls" => some calls
  | "defines" => some defines
  | _ => none

/-- The position that a value holds. -/
def Position.ofJson? (v : Json) : Option Position := do
  let member ← v.members? ["row", "column"]
  let row ← member "row" >>= word?
  let column ← member "column" >>= word?
  some ⟨row, column⟩

/-- The imported name that a value holds. -/
def Import.Name.ofJson? (v : Json) : Option Import.Name := do
  let member ← v.members? ["name", "alias", "subpath"]
  let name ← member "name" >>= text?
  let otherName ← member "alias" >>= text?
  let subpath ← member "subpath" >>= text?
  some ⟨name, otherName, subpath⟩

/-- The members of an import statement, in order. -/
def Import.Statement.memberNames : List String :=
  ["module", "moduleAlias", "names", "path", "code", "startPosition", "endPosition", "wildcard"]

/-- The import statement that a value holds. -/
def Import.Statement.ofJson? (v : Json) : Option Import.Statement := do
  let member ← v.members? memberNames
  let module ← member "module" >>= text?
  let moduleAlias ← member "moduleAlias" >>= text?
  let names ← member "names" >>= list? Import.Name.ofJson?
  let path ← member "path" >>= text?
  let code ← member "code" >>= text?
  let start ← member "startPosition" >>= Position.ofJson?
  let stop ← member "endPosition" >>= Position.ofJson?
  let wildcard ← orElse false truth? (member "wildcard")
  some ⟨module, moduleAlias, names, path, code, start, stop, wildcard⟩

/-- The link that a value holds. -/
def Link.ofJson? (v : Json) : Option Link := do
  let member ← v.members? ["source", "target", "label", "line"]
  let source ← member "source" >>= text?
  let target ← member "target" >>= text?
  let label ← member "label" >>= named? LinkLabel.ofName?
  let line ← orElse none (nullable? word?) (member "line")
  some ⟨source, target, label, line⟩

namespace EntityRecord

/-- The members of an entity record, in order. -/
def memberNames : List String :=
  ["id", "type", "name", "alias", "label", "language", "documentation", "code", "body",
    "codeNoBody", "exportable", "startPosition", "endPosition", "inDegree", "outDegree", "parent",
    "children", "originFile", "importStatements"]

/-- The entity record that a value holds. -/
def ofJson? (v : Json) : Option EntityRecord := do
  let member ← v.members? memberNames
  let id ← member "id" >>= text?
  let kind ← member "type" >>= named? EntityKind.ofName?
  let name ← member "name" >>= text?
  let otherName ← member "alias" >>= text?
  let label ← member "label" >>= text?
  let language ← member "language" >>= named? Language.ofName?
  let documentation ← member "documentation" >>= text?
  let code ← member "code" >>= text?
  let body ← member "body" >>= text?
  let codeNoBody ← member "codeNoBody" >>= text?
  let exportable ← member "exportable" >>= truth?
  let start ← member "startPosition" >>= Position.ofJson?
  let stop ← member "endPosition" >>= Position.ofJson?
  let inDegree ← member "inDegree" >>= word?
  let outDegree ← member "outDegree" >>= word?
  let parent ← orElse none (nullable? text?) (member "parent")
  let children ← member "children" >>= list? text?
  let originFile ← member "originFile" >>= text?
  let imports ← orElse [] (list? Import.Statement.ofJson?) (member "importStatements")
  some ⟨id, kind, name, otherName, label, language, documentation, code, body, codeNoBody,
    exportable, start, stop, inDegree, outDegree, parent, children, originFile, imports⟩

/-- The entity records in a text. -/
def readAll? (text : String) : Option (List EntityRecord) := (Json.read? text).bind (list? ofJson?)

end EntityRecord

/-- The links in a text. -/
def Link.readAll? (text : String) : Option (List Link) := (Json.read? text).bind (list? Link.ofJson?)

end CodeAtlas

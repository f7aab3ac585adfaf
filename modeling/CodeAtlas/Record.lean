import CodeAtlas.Entity
import CodeAtlas.Json

/-!
# Records

The form in which a graph is handed out: a record for every entity and one for every link.  A
`defines` link leads from a definition to what surrounds it, and a `calls` link from an entity to
one that it uses, with the first line on which it does.
-/

namespace CodeAtlas

/-- What a link says. -/
inductive LinkLabel where
  | calls
  | defines
deriving DecidableEq, Repr, Inhabited

namespace LinkLabel

/-- The name of a label. -/
def name : LinkLabel → String
  | calls => "calls"
  | defines => "defines"

end LinkLabel

/-- A link between two entities. -/
structure Link where
  source : String
  target : String
  label : LinkLabel
  line : Option Nat
deriving DecidableEq, Repr, Inhabited

/-- An entity as it is handed out. -/
structure EntityRecord where
  id : String
  kind : EntityKind
  name : String
  otherName : String
  label : String
  language : Language
  documentation : String
  code : String
  body : String
  codeNoBody : String
  exportable : Bool
  start : Position
  stop : Position
  inDegree : Nat
  outDegree : Nat
  parent : Option String
  children : List String
  originFile : String
  imports : List Import.Statement
deriving DecidableEq, Repr, Inhabited

namespace EntityRecord

/-- The record of an entity, given its children. -/
def ofEntity (e : Entity) (children : List Entity) : EntityRecord where
  id := e.id
  kind := e.kind
  name := e.name
  otherName := e.otherName
  label := e.label
  language := e.language
  documentation := e.documentation
  code := e.code
  body := e.body
  codeNoBody := e.codeWithoutBody children
  exportable := e.exportable
  start := e.span.start
  stop := e.span.stop
  inDegree := e.inDegree
  outDegree := e.outDegree
  parent := e.parent
  children := e.children
  originFile := e.filePath
  imports := e.imports

end EntityRecord

/-! ## Records as JSON -/

/-- A position as an object. -/
def Position.toJson (p : Position) : Json :=
  .object [("row", .ofNat p.row), ("column", .ofNat p.column)]

/-- An imported name as an object. -/
def Import.Name.toJson (n : Import.Name) : Json :=
  .object [("name", .string n.name), ("alias", .string n.otherName), ("subpath", .string n.subpath)]

/-- An import statement as an object. -/
def Import.Statement.toJson (s : Import.Statement) : Json :=
  .object [
    ("module", .string s.module),
    ("moduleAlias", .string s.moduleAlias),
    ("names", .array (s.names.map Import.Name.toJson)),
    ("path", .string s.path),
    ("code", .string s.code),
    ("startPosition", s.start.toJson),
    ("endPosition", s.stop.toJson),
    ("wildcard", .bool s.wildcard)]

/-- A link as an object; a line is given only where there is one. -/
def Link.toJson (l : Link) : Json :=
  .object ([
    ("source", .string l.source),
    ("target", .string l.target),
    ("label", .string l.label.name)] ++
    (l.line.map fun n => ("line", Json.ofNat n)).toList)

/-- An entity record as an object; imports are given only where there are some. -/
def EntityRecord.toJson (r : EntityRecord) : Json :=
  .object ([
    ("id", .string r.id),
    ("type", .string r.kind.name),
    ("name", .string r.name),
    ("alias", .string r.otherName),
    ("label", .string r.label),
    ("language", .string r.language.name),
    ("documentation", .string r.documentation),
    ("code", .string r.code),
    ("body", .string r.body),
    ("codeNoBody", .string r.codeNoBody),
    ("exportable", .bool r.exportable),
    ("startPosition", r.start.toJson),
    ("endPosition", r.stop.toJson),
    ("inDegree", .ofNat r.inDegree),
    ("outDegree", .ofNat r.outDegree),
    ("parent", (r.parent.map Json.string).getD .null),
    ("children", .array (r.children.map Json.string)),
    ("originFile", .string r.originFile)] ++
    (if r.imports.isEmpty then []
      else [("importStatements", .array (r.imports.map Import.Statement.toJson))]))

/-- The text of a list of entity records. -/
def EntityRecord.writeAll (rs : List EntityRecord) : String :=
  (Json.array (rs.map EntityRecord.toJson)).pretty

/-- The text of a list of links. -/
def Link.writeAll (ls : List Link) : String := (Json.array (ls.map Link.toJson)).pretty

end CodeAtlas

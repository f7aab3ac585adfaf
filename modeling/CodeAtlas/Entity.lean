import CodeAtlas.Entity.Kind
import CodeAtlas.Import.Statement
import CodeAtlas.Language
import CodeAtlas.Text.Blank
import CodeAtlas.Text.Bytes

/-!
# Entities

An entity is a file or a definition in one.  It keeps the text it stands for in two forms:
`source` is its own text, with the statements that belong to it appended, and `code` is that text
with the headers of the definitions around it put in front.  The degrees count links: `inDegree`
those that lead to the entity and `outDegree` those that leave it.
-/

namespace CodeAtlas

/-- A file or a definition in a file. -/
structure Entity where
  id : String
  kind : EntityKind
  name : String
  otherName : String
  language : Language
  code : String
  body : String
  bodyStart : Nat
  documentation : String
  exportable : Bool
  span : Span
  imports : List Import.Statement
  parent : Option String
  children : List String
  inDegree : Nat
  outDegree : Nat
  source : String
deriving DecidableEq, Repr, Inhabited

namespace Entity

/-- An entity of which only the text is known. -/
def ofCode (id : String) (kind : EntityKind) (language : Language) (code : String) : Entity where
  id := id
  kind := kind
  name := ""
  otherName := ""
  language := language
  code := code
  body := ""
  bodyStart := 0
  documentation := ""
  exportable := false
  span := default
  imports := []
  parent := none
  children := []
  inDegree := 0
  outDegree := 0
  source := code

/-- The position of the end of a text. -/
def endOf (text : String) : Position where
  row := Text.rowEnds text
  column := Text.byteLength ((Text.splitChars '\n' text.toList).getLastD [])

/-- The entity of a whole file. -/
def file (path content : String) (language : Language) : Entity :=
  { ofCode path .file language content with
    name := (Path.fileStem? path).getD path
    exportable := true
    body := content
    span := ⟨0, Text.size content, ⟨0, 0⟩, endOf content⟩ }

/-! ## Names -/

/-- The name under which other files know the entity. -/
def label (e : Entity) : String :=
  if e.otherName.isEmpty then e.name else e.otherName

/-- The text in front of the first double colon. -/
def beforeColons : List Char → List Char
  | [] => []
  | ':' :: ':' :: _ => []
  | c :: rest => c :: beforeColons rest

/-- The path of the file that the entity belongs to. -/
def filePath (e : Entity) : String :=
  String.ofList (beforeColons e.id.toList)

/-- The name without the class in front of it. -/
def memberName (e : Entity) : String :=
  (Text.split '.' e.name).getLastD e.name

/-- The entity initialises objects of a class. -/
def isConstructorOf (e class' : Entity) : Bool :=
  match e.language with
  | .java => e.memberName == class'.name
  | l => l.constructorName? == some e.memberName

/-! ## Bodies -/

/-- The body as it stands in the code: documentation that opens it does not belong to it, and a
blank body is none. -/
def visibleBody? (e : Entity) : Option String :=
  let body :=
    if e.documentation.isEmpty then e.body
    else (Text.dropBeginning? e.documentation e.body).getD e.body
  if Text.isBlankText body then none else some body

/-- The byte offset at which the visible body of `owner` stands in a text of `e` of a given
size, by the place of the body in the file. -/
def expectedOffset? (e owner : Entity) (target : String) (textSize : Nat) : Option Nat :=
  if owner.bodyStart < e.span.startByte then none
  else
    let offset := owner.bodyStart - e.span.startByte + (Text.size owner.body - Text.size target)
    if Text.size e.source ≤ offset + textSize then some (offset + textSize - Text.size e.source)
    else none

/-- The text before and after the visible body of `owner` in what is left of a text of `e`.

The body is looked for at its expected offset first, and else at its first occurrence.  `before`
is the part of the text that was passed already. -/
def locate? (e owner : Entity) (target : String) (before rest : List Char) :
    Option (List Char × List Char) :=
  let passed := Text.byteLength before
  let exact : Option (List Char × List Char) := do
    let offset ← expectedOffset? e owner target (passed + Text.byteLength rest)
    if offset < passed then none
    else
      let (skipped, found) ← Text.cutAt? (offset - passed) rest
      let after ← Text.stripPrefix? target.toList found
      some (skipped, after)
  match exact with
  | some p => some p
  | none => Text.splitFirst? target.toList rest

/-- The code up to the body, which is what the definitions inside show of the entity. -/
def signature (e : Entity) : String :=
  match e.visibleBody?.bind fun target => e.locate? e target [] e.code.toList with
  | some (before, after) => String.ofList (Text.trimChars (before ++ after))
  | none => Text.firstRow e.code

/-- Puts the header of the surrounding definition in front of the code. -/
def spliceHeader (e : Entity) (header : String) : Entity :=
  let pad := Text.spaces e.span.start.column
  { e with code := header ++ "\n" ++ pad ++ "...\n" ++ pad ++ e.code }

/-- The bodies of these entities are never replaced inside `e`. -/
def keepsBodyOf (e child : Entity) : Bool :=
  child.kind == .assignment || (e.kind.isClassLike && child.isConstructorOf e)

/-- Replaces the bodies of definitions in what is left of a text, one definition after the
other; `done` is what was passed already. -/
def redactFrom (e : Entity) (placeholder : Entity → String → String) :
    List Entity → List Char → List Char → List Char
  | [], done, rest => done ++ rest
  | child :: others, done, rest =>
    match child.visibleBody? with
    | none => redactFrom e placeholder others done rest
    | some target =>
      match e.locate? child target done rest with
      | none => redactFrom e placeholder others done rest
      | some (skipped, after) =>
        let put := if e.keepsBodyOf child then target else placeholder child target
        redactFrom e placeholder others (done ++ skipped ++ put.toList) after

/-- The definitions in the order of their places. -/
def inSourceOrder (children : List Entity) : List Entity :=
  children.mergeSort fun a b => a.span.startByte ≤ b.span.startByte

/-- Replaces the bodies of definitions inside a text of the entity. -/
def redact (e : Entity) (placeholder : Entity → String → String) (text : String)
    (children : List Entity) : String :=
  String.ofList (redactFrom e placeholder (inSourceOrder children) [] text.toList)

/-- The text opens a block with a brace. -/
def opensBrace (text : String) : Bool :=
  (Text.trimStartChars text.toList).head? == some '{'

/-- What is shown in place of a body. -/
def bodyPlaceholder (e owner : Entity) : String :=
  let pad := Text.spaces owner.span.start.column
  if e.language.usesIndentation || !opensBrace owner.body then "\n" ++ pad ++ "    ..."
  else "\x7b\n" ++ pad ++ "    //...\n" ++ pad ++ "\x7d"

/-- The code with placeholders in place of bodies: of the own body, or of the bodies of the
definitions inside where there are any. -/
def codeWithoutBody (e : Entity) (children : List Entity) : String :=
  match children with
  | [] =>
    match e.visibleBody?.bind fun target => e.locate? e target [] e.code.toList with
    | some (before, after) =>
      String.ofList (Text.trimChars (before ++ (e.bodyPlaceholder e).toList ++ after))
    | none => Text.trim e.code
  | _ => Text.trim (e.redact (fun owner _ => e.bodyPlaceholder owner) e.code children)

/-- What is analysed in place of a body; it has as many row ends as the body. -/
def rowPlaceholder (e owner : Entity) (target : String) : String :=
  let rows := Text.repeated "\n" (Text.rowEnds target)
  if opensBrace target then "\x7b" ++ rows ++ "\x7d"
  else if e.language.usesIndentation then
    rows ++ Text.spaces (owner.span.start.column + 4) ++ "..."
  else rows ++ "null"

/-- The own text without the bodies of the definitions inside, row by row as in the file. -/
def analysisText (e : Entity) (children : List Entity) : String :=
  match children with
  | [] => e.source
  | _ => e.redact e.rowPlaceholder e.source children

end Entity
end CodeAtlas

import CodeAtlas.Capture
import CodeAtlas.Import.Statement

/-!
# Import statements of a text

Every match of an import pattern is a part of an import statement: a module, perhaps with a name,
an alias or the mark of a wildcard.  The parts of one statement are put together module by module,
in the order in which they stand in the text.
-/

namespace CodeAtlas
namespace Import

open Syntax (Parsed)

/-- What one match says about an import statement. -/
structure Part where
  module : String
  name : Option String
  otherName : Option String
  wildcard : Bool
  offset : Nat
deriving DecidableEq, Repr, Inhabited

/-- An import statement of a text with its parts. -/
structure Draft where
  code : String
  span : Span
  parts : List Part
deriving DecidableEq, Repr, Inhabited

/-! ## From parts to statements -/

/-- Adds a name, or gives an alias to one that is there. -/
def addName (name otherName : String) : List Name → List Name
  | [] => [⟨name, otherName, ""⟩]
  | n :: rest =>
    if n.name = name then
      (if otherName.isEmpty then n else { n with otherName := otherName }) :: rest
    else n :: addName name otherName rest

/-- Adds what a part says to the statement of its module. -/
def Statement.add (s : Statement) (p : Part) : Statement :=
  let s := { s with wildcard := s.wildcard || p.wildcard }
  match p.name, p.otherName with
  | some name, otherName => { s with names := addName name (otherName.getD "") s.names }
  | none, some otherName => { s with moduleAlias := otherName }
  | none, none => s

namespace Draft

/-- The statement of a module about which nothing is known yet. -/
def blank (d : Draft) (module : String) : Statement where
  module := module
  moduleAlias := ""
  names := []
  path := ""
  code := d.code
  start := d.span.start
  stop := d.span.stop
  wildcard := false

/-- Adds a part to the statement of its module, or opens one. -/
def addPart (d : Draft) (p : Part) : List Statement → List Statement
  | [] => [(d.blank p.module).add p]
  | s :: rest => if s.module = p.module then s.add p :: rest else s :: addPart d p rest

/-- The parts that count, in source order: only the wildcards where there is one. -/
def counted (d : Draft) : List Part :=
  let parts := if d.parts.any (·.wildcard) then d.parts.filter (·.wildcard) else d.parts
  parts.mergeSort fun a b => a.offset ≤ b.offset

/-- A module that is imported as a whole goes by its own name. -/
def named (s : Statement) : Statement :=
  if s.names.isEmpty && s.moduleAlias.isEmpty then { s with moduleAlias := s.module } else s

/-- The statements of a draft, one for each module. -/
def statements (d : Draft) : List Statement :=
  (d.counted.foldl (fun done p => d.addPart p done) []).map named

end Draft

/-! ## From a text to drafts -/

/-- The character may enclose the text of a module. -/
def isQuote (c : Char) : Bool := c == '"' || c == '\'' || c.toNat == 0x60

/-- A module text without the quotes around it; a text in angle brackets stays as it is. -/
def moduleText (text : String) : String :=
  let cs := Text.trimChars text.toList
  if cs.head? == some '<' then String.ofList cs
  else String.ofList ((cs.dropWhile isQuote).reverse.dropWhile isQuote).reverse

/-- The text before and after the last occurrence of a character. -/
def splitLast? (c : Char) (s : String) : Option (String × String) :=
  let pieces := Text.split c s
  match pieces.dropLast, pieces.getLast? with
  | [], _ => none
  | before, some last => some (Text.join (String.singleton c) before, last)
  | _, none => none

/-- A `use` of a qualified name takes its last segment from the namespace before it. -/
def Part.splitQualified (p : Part) (statement : String) : Part :=
  if !Text.startsWith (Text.trimStart statement) "use" then p
  else
    let module := Text.trimStartOf '\\' p.module
    match splitLast? '\\' module with
    | some (before, name) => { p with module := before, name := some name }
    | none => { p with module := module }

/-- Adds what a capture says to a part. -/
def Part.read (p : Part) (c : Capture) : Part :=
  match c.label with
  | "name" => { p with name := some c.text, offset := c.span.startByte }
  | "alias" => { p with otherName := some c.text }
  | "wildcard" => { p with wildcard := true }
  | _ => p

/-- The statement that a match belongs to, and what it says about it. -/
def partOf? (language : Language) (captures : List Capture) : Option (Capture × Part) := do
  let statement ← captures.find? (·.label == "import_statement")
  let module ← captures.find? (·.label == "module")
  let opened : Part := ⟨moduleText module.text, none, none, false, module.span.startByte⟩
  let part := captures.foldl Part.read opened
  let part :=
    if language == .php && part.name.isNone then part.splitQualified statement.text else part
  some (statement, part)

/-- Adds a part to the draft of its statement; the drafts are kept in source order. -/
def addDraft (statement : Capture) (part : Part) : List Draft → List Draft
  | [] => [⟨statement.text, statement.span, [part]⟩]
  | d :: rest =>
    let a := statement.span
    let b := d.span
    if a.startByte = b.startByte ∧ a.endByte = b.endByte then
      { d with parts := d.parts ++ [part] } :: rest
    else if a.startByte < b.startByte ∨ (a.startByte = b.startByte ∧ a.endByte < b.endByte) then
      ⟨statement.text, a, [part]⟩ :: d :: rest
    else d :: addDraft statement part rest

/-- The drafts of the matches of import patterns. -/
def drafts (language : Language) (found : List (List Capture)) : List Draft :=
  (found.filterMap (partOf? language)).foldl (fun done p => addDraft p.1 p.2 done) []

/-- The import statements of a text. -/
def statements (p : Parsed) : List Statement :=
  (drafts p.language (Capture.all p .imports)).flatMap Draft.statements

end Import
end CodeAtlas

import CodeAtlas.Entity
import CodeAtlas.Names
import CodeAtlas.Uses.Window

/-!
# Uses of entities

Which entities of the index an entity uses, and on which lines of its file.  The own text of the
entity is prepared first: the bodies of the definitions inside are taken out, aliases of imports
are replaced by what they stand for, the word for the own object by the name of the class, and
variables by what was assigned to them.  All of this keeps every row in its place.  What the
prepared text calls, and the types it names, are then looked up among the names in scope.
-/

namespace CodeAtlas

/-- What is known about a file when the uses of its entities are looked for. -/
structure Scope where
  language : Language
  names : Names
  imports : List Import.Statement
deriving Repr, Inhabited, DecidableEq

namespace Uses

/-! ## Preparing a text -/

/-- The text with the aliases of import statements replaced. -/
def replaceAliases (imports : List Import.Statement) (text : String) : String :=
  (imports.flatMap (·.renamings)).foldl (fun t r => Text.replaceWord r.1 r.2 t) text

/-- The text of a method with the name of its class for the own object. -/
def replaceSelf (language : Language) (e : Entity) (parent : Option Entity) (text : String) :
    String :=
  match parent, language.selfWord? with
  | some owner, some word =>
    if e.kind == .method && owner.kind.isClassLike then Text.replaceWord word owner.name text
    else text
  | _, _ => text

/-- Puts what the grammar needs around the text of a definition that does not stand alone. -/
def wrap (language : Language) (kind : EntityKind) (text : String) : String :=
  match language with
  | .javascript | .typescript | .tsx =>
    if kind == .method then "function " ++ text else text
  | .java =>
    match kind with
    | .file | .interface | .enum | .cls => text
    | _ => "class __scope__ \x7b " ++ text ++ "\n\x7d"
  | .php => if kind == .file then text else "<?php " ++ text
  | .python | .c => text

/-- The text of an entity before variables are replaced. -/
def prepare (s : Scope) (e : Entity) (children : List Entity) (parent : Option Entity) : String :=
  wrap s.language e.kind
    (replaceSelf s.language e parent (replaceAliases s.imports (e.analysisText children)))

/-- The text of an entity in which uses are looked for. -/
def analysed (s : Scope) (e : Entity) (children : List Entity) (parent : Option Entity) : String :=
  let text := prepare s e children parent
  applyWindows text (windows s.language text)

/-! ## Reading uses -/

/-- The character ends the name of what is called. -/
def endsCallee (c : Char) : Bool := c == '(' || c == '<' || c == '[' || c == '{'

/-- The text with a dot for every occurrence of a pair of characters. -/
def dotFor (a b : Char) : List Char → List Char
  | [] => []
  | [c] => [c]
  | c :: d :: rest =>
    if c = a ∧ d = b then '.' :: dotFor a b rest else c :: dotFor a b (d :: rest)

/-- The dotted name of what a text calls: `this.api?.get<T>(x)` gives `this.api.get`. -/
def callee? (text : String) : Option String :=
  let cs := text.toList.takeWhile fun c => !endsCallee c
  let cs := cs.filter fun c => !Text.isBlank c && c != '$'
  let cs := dotFor ':' ':' (dotFor '-' '>' (dotFor '?' '.' cs))
  let cs := ((cs.dropWhile (· == '.')).reverse.dropWhile (· == '.')).reverse
  if Text.isDottedChars cs then some (String.ofList cs) else none

/-- The names that a capture mentions. -/
def tokens (c : Capture) : List String :=
  match c.label with
  | "identifier.name" => (callee? c.text).toList
  | "parameter_type" => if c.declaredName then [] else Text.dottedNames c.text
  | "return_type" => Text.dottedNames c.text
  | _ => []

/-- Puts a line into an ordered list of lines, each once. -/
def insertLine (line : Nat) : List Nat → List Nat
  | [] => [line]
  | l :: rest =>
    if line = l then l :: rest
    else if line < l then line :: l :: rest
    else l :: insertLine line rest

/-- Adds a line on which a target is used. -/
def addLine (t : Table (List Nat)) (target : String) (line : Nat) : Table (List Nat) :=
  t.insert target (insertLine line ((t.find? target).getD []))

/-- Adds what a name stands for, on a line; the entity itself does not count. -/
def addToken (s : Scope) (e : Entity) (line : Nat) (t : Table (List Nat)) (token : String) :
    Table (List Nat) :=
  match s.names.resolve? token with
  | some target => if target == e.id then t else addLine t target line
  | none => t

/-- Adds what a capture in the prepared text of an entity uses. -/
def addCapture (s : Scope) (e : Entity) (t : Table (List Nat)) (c : Capture) :
    Table (List Nat) :=
  (tokens c).foldl (addToken s e (e.span.start.row + c.span.start.row + 1)) t

/-- The entities that captures in the prepared text of an entity use, with the lines. -/
def ofCaptures (s : Scope) (e : Entity) (captures : List Capture) : Table (List Nat) :=
  captures.foldl (addCapture s e) .empty

/-- The entities that an entity uses, with the lines. -/
def find (s : Scope) (e : Entity) (children : List Entity) (parent : Option Entity) :
    Table (List Nat) :=
  let text := analysed s e children parent
  ofCaptures s e (Capture.all (Syntax.parse s.language text) .uses).flatten

end Uses
end CodeAtlas

import CodeAtlas.Entity.Kind
import CodeAtlas.Import.Draft
import CodeAtlas.Text.Bytes

/-!
# Surveys

A survey says what the syntax of a file tells about its definitions, as spans of the text: where
each definition stands, which comments precede it, where its name, its documentation and its body
are, and which statements further down call something on it.  With it come the names that the file
exports and the modules that it imports.  The entities of the file are made from a survey without
another look at the syntax.
-/

namespace CodeAtlas

open Syntax (Parsed Site Tree)
open Pattern (Labelled)

namespace Survey

/-- A labelled part of a definition. -/
structure Part where
  label : String
  span : Span
deriving DecidableEq, Repr, Inhabited

/-- A definition in a text.

`comments` stand before it, `parts` are in the order in which they start, `owned` is what a
namespace without braces holds, and `chained` are the later statements that belong to it. -/
structure Definition where
  kind : EntityKind
  span : Span
  comments : List Span
  parts : List Part
  owned : Option Span
  chained : List Span
deriving DecidableEq, Repr, Inhabited

end Survey

/-- What the syntax of a file tells about it. -/
structure Survey where
  definitions : List Survey.Definition
  exports : List (String × String)
  imports : List Import.Statement
deriving DecidableEq, Repr, Inhabited

namespace Survey

/-- The text of a span. -/
def slice (content : String) (s : Span) : String :=
  String.ofList ((Text.sliceBytes? s.startByte s.endByte content.toList).getD [])

namespace Definition

/-- The parts in front of a second name, which belongs to a definition inside; `named` says that
the first name has passed. -/
def ownFrom : Bool → List Part → List Part
  | _, [] => []
  | named, p :: rest =>
    if p.label == "name" then
      if named then [] else p :: ownFrom true rest
    else p :: ownFrom named rest

/-- The parts of the definition itself. -/
def ownParts (d : Definition) : List Part := ownFrom false d.parts

/-- The text of the name. -/
def name (d : Definition) (content : String) : String :=
  ((d.ownParts.find? (·.label == "name")).map fun p => slice content p.span).getD ""

end Definition

/-! ## Comments before a definition -/

/-- The kind is that of a comment. -/
def isComment (kind : String) : Bool :=
  kind == "comment" || kind == "line_comment" || kind == "block_comment"

/-- A node of this kind only wraps the definition in it. -/
def isWrapper (kind : String) : Bool :=
  kind == "export_statement" || kind == "lexical_declaration" || kind == "variable_declaration" ||
    kind == "expression_statement" || kind == "decorated_definition" || kind == "declaration"

/-- The sibling before a node is a comment. -/
def followsComment (s : Site) : Bool :=
  s.before.head?.any fun t => isComment t.kind

/-- The outermost wrapper of a node that starts on the row, short of one behind a comment. -/
def outermost (p : Parsed) (row : Nat) : Nat → Site → Site
  | 0, s => s
  | fuel + 1, s =>
    if followsComment s then s
    else
      match s.parent? with
      | none => s
      | some up =>
        if isWrapper up.tree.kind && (p.span up).start.row == row then outermost p row fuel up
        else s

/-- The span of a tree. -/
def spanOf (p : Parsed) (t : Tree) : Span := p.source.span t.first t.stop

/-- The comments among siblings, the nearest first, that reach down to a row without a gap. -/
def commentsAbove (p : Parsed) : Nat → List Tree → List Span
  | _, [] => []
  | top, t :: rest =>
    let span := spanOf p t
    if !isComment t.kind || top < span.stop.row || span.stop.row + 1 < top then []
    else span :: commentsAbove p span.start.row rest

/-- The comments that precede a definition, in source order. -/
def comments (p : Parsed) (s : Site) : List Span :=
  let anchor := outermost p (p.span s).start.row (s.depth + 1) s
  (commentsAbove p (p.span anchor).start.row anchor.before).reverse

/-! ## Definitions -/

/-- The members of a list at their first occurrence, told apart by a key. -/
def distinctBy {α β : Type} [BEq β] (key : α → β) : List α → List β → List α
  | [], _ => []
  | x :: rest, seen =>
    if seen.contains (key x) then distinctBy key rest seen
    else x :: distinctBy key rest (key x :: seen)

/-- What starts earlier comes first, and of two that start together the longer one. -/
def startsBefore (a b : Tree) : Bool :=
  a.first < b.first || (a.first == b.first && b.stop ≤ a.stop)

/-- The labelled parts of a definition. -/
def partsOf (p : Parsed) (s : Site) : List Part :=
  let found := (Capture.labelled p .parts s).flatten
  let found := distinctBy (fun l : Labelled => (l.label, l.site.path)) found []
  let found := found.mergeSort fun a b => startsBefore a.site.tree b.site.tree
  found.map fun l => ⟨l.label, p.span l.site⟩

/-- What a namespace without braces holds: everything up to the next namespace.  It does not end in
front of the start of the namespace. -/
def ownedBy (p : Parsed) (s : Site) : Option Span :=
  if s.tree.kind != "namespace_definition" || (s.tree.childIn? "body").isSome then none
  else
    let held := s.behind.takeWhile fun t => t.kind != "namespace_definition"
    match held.head?, held.getLast? with
    | some first, some last => some (p.source.span first.first (max s.tree.first last.stop))
    | _, _ => none

/-- The definition at a node, without the statements that belong to it. -/
def definitionAt (p : Parsed) (kind : EntityKind) (s : Site) : Definition where
  kind := kind
  span := p.span s
  comments := comments p s
  parts := if kind == .export then [] else partsOf p s
  owned := if kind == .export then none else ownedBy p s
  chained := []

/-- Adds the statements that call something on the variable of an assignment. -/
def withChained (p : Parsed) (content : String) (d : Definition) : Definition :=
  if d.kind == .assignment then
    { d with chained := (Capture.chainedCalls p (d.name content)).map (·.span) }
  else d

/-- The definitions of a text, the outer ones first. -/
def definitionsOf (p : Parsed) (content : String) : List Definition :=
  let root := p.root
  let found := (Capture.labelled p .definitions root).flatten ++
    (Capture.labelled p .globals root).flatten
  let typed := found.filterMap fun l => (EntityKind.ofLabel? l.label).map fun k => (k, l.site)
  let typed := distinctBy (fun d : EntityKind × Site => (d.1, d.2.path)) typed []
  let typed := typed.mergeSort fun a b => startsBefore a.2.tree b.2.tree
  let built := typed.map fun d => definitionAt p d.1 d.2
  let kept := built.filter fun d => d.kind == .export || !(d.name content).isEmpty
  kept.map (withChained p content)

/-! ## Exports -/

/-- The name and the alias in an export clause. -/
def exportOf (captures : List Capture) : String × String :=
  captures.foldl (fun e c =>
    match c.label with
    | "name" => (c.text, e.2)
    | "alias" => (e.1, c.text)
    | _ => e) ("", "")

/-- The names that the text exports in clauses, with the names under which it does. -/
def exportsOf (p : Parsed) : List (String × String) :=
  ((Capture.all p .exports).map exportOf).filter fun e => !e.1.isEmpty

/-- The survey of a text. -/
def of (language : Language) (content : String) : Survey :=
  let p := Syntax.parse language content
  ⟨definitionsOf p content, exportsOf p, Import.statements p⟩

end Survey
end CodeAtlas

import CodeAtlas.Forest
import CodeAtlas.Survey

/-!
# Extraction

The entities of one file, made from its survey.  Every definition becomes an entity; each is put
under the file first and then offered the definitions whose rows contain its own, from the
tightest one outwards.  The widest definitions are placed first, so that a definition has its
final header when the ones inside look at it.
-/

namespace CodeAtlas

open Survey (Definition Part slice)

namespace Extraction

/-! ## Entities of definitions -/

/-- The text without the first occurrence of a piece. -/
def removeFirst (piece text : String) : String :=
  match Text.splitFirst? piece.toList text.toList with
  | some (before, after) => String.ofList (before ++ after)
  | none => text

/-- Adds what a part of a definition says to its entity. -/
def addPart (path content : String) (e : Entity) (p : Part) : Entity :=
  let value := slice content p.span
  match p.label with
  | "name" => { e with name := value, id := path ++ "::" ++ value }
  | "alias" => if e.otherName.isEmpty then { e with otherName := value } else e
  | "documentation" =>
    if value.isEmpty then e
    else if e.language.usesIndentation then
      { e with documentation := value, code := removeFirst value e.code }
    else { e with documentation := value }
  | "body" =>
    if e.body.isEmpty then { e with body := value, bodyStart := p.span.startByte } else e
  | _ => e

/-- A namespace without braces reaches to the end of what it holds. -/
def addOwned (content : String) (e : Entity) (owned : Option Span) : Entity :=
  match owned with
  | none => e
  | some held =>
    let span : Span := ⟨e.span.startByte, held.endByte, e.span.start, held.stop⟩
    let code := slice content span
    { e with
      span := span
      code := code
      source := code
      body := slice content held
      bodyStart := held.startByte }

/-- A definition is visible to other files. -/
def isVisible (language : Language) (text : String) : Bool :=
  if language == .c then !Text.startsWith text "static" else language.exportsByDefault

/-- The entity of a definition, without the statements that belong to it. -/
def entityOf (language : Language) (path content : String) (d : Definition) : Entity :=
  let text := slice content d.span
  let opened := { Entity.ofCode path d.kind language text with
    span := d.span
    documentation := Text.join "\n" (d.comments.map (slice content))
    exportable := isVisible language text }
  addOwned content (d.ownParts.foldl (addPart path content) opened) d.owned

/-- Appends a statement that belongs to an entity. -/
def addStatement (content : String) (e : Entity) (s : Span) : Entity :=
  let row := "\n" ++ slice content s
  { e with code := e.code ++ row, source := e.source ++ row }

/-- The entity of a definition. -/
def entity (language : Language) (path content : String) (d : Definition) : Entity :=
  d.chained.foldl (addStatement content) (entityOf language path content d)

/-! ## Containment -/

/-- The entity is placed before another: the wider one first, then the earlier, then the
longer. -/
def placedBefore (a b : Entity × Nat) : Bool :=
  let key (x : Entity × Nat) : Nat × Nat × Nat := (x.1.span.rows, x.1.span.startByte, x.2)
  let (rowsA, startA, indexA) := key a
  let (rowsB, startB, indexB) := key b
  rowsB < rowsA || (rowsA == rowsB && (startA < startB || (startA == startB &&
    (b.1.span.endByte < a.1.span.endByte ||
      (a.1.span.endByte == b.1.span.endByte && indexA ≤ indexB)))))

/-- Entities with their indices, in the order in which they are placed. -/
def placement (entities : List (Entity × Nat)) : List (Entity × Nat) :=
  entities.mergeSort placedBefore

/-- An entity may be placed under a candidate; on equal rows only a candidate that was placed
before it and surrounds it counts. -/
def mayHold (candidate e : Entity) (earlier : Bool) : Bool :=
  candidate.kind != .assignment && e.span.rowsWithin candidate.span &&
    (!e.span.sameRows candidate.span || (candidate.span.byteContains e.span && earlier))

/-- The candidates for an entity, the tightest first and of equally tight ones the one placed
last. -/
def candidates (before : List (Entity × Nat)) (e : Entity) (after : List (Entity × Nat)) :
    List Nat :=
  let found := before.filter (fun c => mayHold c.1 e true) ++
    after.filter (fun c => mayHold c.1 e false)
  (found.reverse.mergeSort fun a b => a.1.span.rows ≤ b.1.span.rows).map Prod.snd

/-- Places the entities one after the other; `before` are those already passed. -/
def place (file : Nat) : List (Entity × Nat) → List (Entity × Nat) → Forest → Forest
  | _, [], f => f
  | before, (e, i) :: after, f =>
    let f :=
      if e.kind == .export then f
      else (candidates before e after).foldl (fun g c => (g.relate i c).1) (f.attach file i)
    place file (before ++ [(e, i)]) after f

/-! ## Files -/

/-- Marks the first entity at the top of the file that has an exported name. -/
def applyExport (file : Nat) (f : Forest) (clause : String × String) : Forest :=
  let named (i : Nat) : Bool :=
    (f.entity? i).any fun e => e.kind != .export && e.name == clause.1
  match (f.children file).find? named with
  | none => f
  | some i =>
    f.modify i fun e =>
      { e with
        otherName := if clause.2.isEmpty then e.otherName else clause.2
        exportable := true }

/-- The forest of a file: the file at index zero and its definitions behind it. -/
def forest (language : Language) (path content : String) (s : Survey) : Forest :=
  let entities := s.definitions.map (entity language path content)
  let file := { Entity.file path content language with imports := s.imports }
  let f := entities.foldl Forest.push (Forest.empty.push file)
  let f := place 0 [] (placement (entities.zipIdx 1)) f
  let f := s.exports.foldl (applyExport 0) f
  (f.children 0).foldl Forest.propagateExport f

/-- The entities of a file with a given survey: the file, then its definitions in pre-order. -/
def entities (language : Language) (path content : String) (s : Survey) : List Entity :=
  (forest language path content s).finish 0

end Extraction

/-- The entities of a file, unless its language is not known. -/
def extract? (path content : String) : Option (List Entity) :=
  (Language.ofPath? path).map fun l => Extraction.entities l path content (Survey.of l content)

end CodeAtlas

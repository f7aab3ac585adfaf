import CodeAtlas.Entity

/-!
# Forests

While a file is taken apart, its entities stand in a forest: each has an index, and the forest
records the parent and the children of every index.  Every change of an edge goes through `attach`
and `detach`, which change the degrees of the two entities along with it.

`relate` offers an entity a definition that may surround it, and `finish` turns the forest into
entities that name one another by unique ids.
-/

namespace CodeAtlas

/-- An entity with its place in a forest. -/
structure Cell where
  entity : Entity
  parent : Option Nat
  children : List Nat
deriving DecidableEq, Repr, Inhabited

/-- Entities with the edges between them. -/
structure Forest where
  cells : List Cell
deriving DecidableEq, Repr, Inhabited

namespace Forest

/-- The forest without entities. -/
def empty : Forest := ⟨[]⟩

/-- The number of entities. -/
def size (f : Forest) : Nat := f.cells.length

/-- The cell at an index. -/
def cell? (f : Forest) (i : Nat) : Option Cell := f.cells[i]?

/-- The entity at an index. -/
def entity? (f : Forest) (i : Nat) : Option Entity := (f.cell? i).map (·.entity)

/-- The parent of an index. -/
def parent? (f : Forest) (i : Nat) : Option Nat := (f.cell? i).bind (·.parent)

/-- The children of an index. -/
def children (f : Forest) (i : Nat) : List Nat := ((f.cell? i).map (·.children)).getD []

/-- Changes the cell at an index. -/
def modifyCell (f : Forest) (i : Nat) (g : Cell → Cell) : Forest :=
  ⟨f.cells.modify i g⟩

/-- Changes the entity at an index. -/
def modify (f : Forest) (i : Nat) (g : Entity → Entity) : Forest :=
  f.modifyCell i fun c => { c with entity := g c.entity }

/-- Adds an entity without edges; its index is the size of the forest before. -/
def push (f : Forest) (e : Entity) : Forest :=
  ⟨f.cells ++ [⟨e, none, []⟩]⟩

/-- Puts one index under another. -/
def attach (f : Forest) (parent child : Nat) : Forest :=
  let f := f.modifyCell parent fun c => { c with children := c.children ++ [child] }
  let f := f.modifyCell child fun c => { c with parent := some parent }
  let f := f.modify parent fun e => { e with inDegree := e.inDegree + 1 }
  f.modify child fun e => { e with outDegree := e.outDegree + 1 }

/-- Takes one index away from under another, if it is there. -/
def detach (f : Forest) (parent child : Nat) : Forest :=
  if (f.children parent).contains child then
    let f := f.modifyCell parent fun c => { c with children := c.children.filter (· != child) }
    let f := f.modify parent fun e => { e with inDegree := e.inDegree - 1 }
    let f := f.modify child fun e => { e with outDegree := e.outDegree - 1 }
    f.modifyCell child fun c => { c with parent := none }
  else f

/-- The index hangs under a file or under nothing. -/
def isFree (f : Forest) (i : Nat) : Bool :=
  match f.parent? i with
  | none => true
  | some p => (f.entity? p).any (·.kind == .file)

/-- What an export statement does to the entity that it wraps. -/
def exportedBy (e wrapper : Entity) : Entity :=
  { e with
    exportable := true
    documentation := if e.documentation.isEmpty then wrapper.documentation else e.documentation }

/-- A function that a class claims becomes a method with a name of its own. -/
def claimedBy (e owner : Entity) : Entity :=
  if owner.kind.isClassLike && e.kind == .function then
    let name := owner.name ++ "." ++ e.name
    { e with
      kind := .method
      name := name
      id := e.filePath ++ "::" ++ name
      otherName := "" }
  else e

/-- Offers an index another one that may surround it, and says whether anything changed.

Only an index that is still free is claimed, and only by one whose rows contain its own.  An
export statement marks the entity and does not become its parent. -/
def relate (f : Forest) (i candidate : Nat) : Forest × Bool :=
  match f.entity? i, f.entity? candidate with
  | some e, some owner =>
    if i == candidate || !e.span.rowsWithin owner.span || !f.isFree i then (f, false)
    else if owner.kind == .export then (f.modify i (exportedBy · owner), true)
    else
      let g := f.modify i (·.spliceHeader owner.signature)
      let g := match f.parent? i with
        | none => g
        | some old => g.detach old i
      let g := g.attach candidate i
      (g.modify i (claimedBy · owner), true)
  | _, _ => (f, false)

/-- The indices below an index in pre-order, at most `depth` levels of them. -/
def below (f : Forest) : Nat → Nat → List Nat
  | 0, _ => []
  | depth + 1, i => (f.children i).flatMap fun c => c :: below f depth c

/-- The indices below an index in pre-order. -/
def descendants (f : Forest) (i : Nat) : List Nat :=
  f.below f.size i

/-- Makes everything below an exportable entity exportable. -/
def propagateExport (f : Forest) (i : Nat) : Forest :=
  if (f.entity? i).any (·.exportable) then
    (f.descendants i).foldl (fun g c => g.modify c fun e => { e with exportable := true }) f
  else f

/-! ## Unique ids -/

/-- The id to try for the `n`-th time on a line. -/
def candidateId (base : String) (line : Nat) : Nat → String
  | 0 => base
  | 1 => base ++ "@" ++ toString line
  | n => base ++ "@" ++ toString line ++ "." ++ toString n

/-- The first candidate, from the `n`-th on, that is not taken. -/
def freshId (taken : List String) (base : String) (line : Nat) : Nat → Nat → String
  | 0, n => candidateId base line n
  | fuel + 1, n =>
    let id := candidateId base line n
    if taken.contains id then freshId taken base line fuel (n + 1) else id

/-- The order in which ids are given out: the root first, then by place in the file. -/
def idOrder (f : Forest) (root : Nat) : List Nat :=
  let key (i : Nat) : Nat := ((f.entity? i).map (·.span.startByte)).getD 0
  let others := (List.range f.size).filter (· != root)
  let sorted := others.mergeSort fun a b => key a < key b || (key a == key b && a ≤ b)
  if root < f.size then root :: sorted else sorted

/-- Gives the entities at some indices ids that are not taken. -/
def giveIds (f : Forest) : List Nat → List String → Forest
  | [], _ => f
  | i :: rest, taken =>
    match f.entity? i with
    | none => giveIds f rest taken
    | some e =>
      if e.kind == .export then giveIds f rest taken
      else
        let id := freshId taken e.id (e.span.start.row + 1) (taken.length + 1) 0
        giveIds (f.modify i fun e => { e with id := id }) rest (id :: taken)

/-- The id of an index. -/
def idAt (f : Forest) (i : Nat) : String := ((f.entity? i).map (·.id)).getD ""

/-- The entity at an index, with the ids of its parent and children. -/
def linked? (f : Forest) (i : Nat) : Option Entity :=
  (f.cell? i).map fun c =>
    { c.entity with parent := c.parent.map f.idAt, children := c.children.map f.idAt }

/-- The members of a list at their first occurrence. -/
def firstOccurrences : List Nat → List Nat
  | [] => []
  | i :: rest => i :: (firstOccurrences rest).filter (· != i)

/-- The entities of a root in pre-order, with unique ids. -/
def finish (f : Forest) (root : Nat) : List Entity :=
  let f := f.giveIds (f.idOrder root) []
  (firstOccurrences (root :: f.descendants root)).filterMap f.linked?

end Forest
end CodeAtlas

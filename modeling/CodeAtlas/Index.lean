import CodeAtlas.Extraction
import CodeAtlas.Import.Resolver
import CodeAtlas.Record
import CodeAtlas.Uses

/-!
# The index

An index holds the entities of all files that were given to it, by id, and which of them uses
which.  Files may be added at any time: `add` extracts the new ones, resolves the imports of all
files anew, and looks for the uses of every entity.
-/

namespace CodeAtlas

/-- The entities of some files and the uses between them. -/
structure Index where
  root : String
  entities : Table Entity
  files : List String
  uses : Table (Table (List Nat))
deriving Repr, Inhabited, DecidableEq

/-- A file to be indexed. -/
structure SourceFile where
  path : String
  content : String
deriving Repr, Inhabited, DecidableEq

/-- What happened when files were added. -/
structure Summary where
  parsed : Nat
  skipped : Nat
  entities : Nat
  unresolved : Nat
  uses : Nat
deriving Repr, Inhabited, DecidableEq

namespace Index

/-- The index of a folder, before any file is added. -/
def empty (root : String) : Index := ⟨root, .empty, [], .empty⟩

/-- The entity with an id. -/
def find? (x : Index) (id : String) : Option Entity := x.entities.find? id

/-- The number of entities. -/
def size (x : Index) : Nat := x.entities.size

/-- Adds an entity, in place of one with the same id. -/
def addEntity (x : Index) (e : Entity) : Index :=
  { x with entities := x.entities.insert e.id e }

/-- The entities that an entity uses, with the lines. -/
def usesOf? (x : Index) (id : String) : Option (Table (List Nat)) := x.uses.find? id

/-- Where imports are looked for. -/
def resolver (x : Index) : Import.Resolver := .ofFiles x.root x.files

/-! ## Going down -/

/-- The children of an entity that are indexed. -/
def childrenOf (x : Index) (e : Entity) : List Entity := e.children.filterMap x.find?

/-- The entities directly below an id. -/
def topOf (x : Index) (id : String) : List Entity :=
  match x.find? id with
  | none => []
  | some e => x.childrenOf e

/-- The entities below others in pre-order, at most `depth` levels of them. -/
def below (x : Index) : Nat → List Entity → List Entity
  | 0, _ => []
  | depth + 1, es => es.flatMap fun e => e :: below x depth (x.childrenOf e)

/-- The entities below an id in pre-order. -/
def descendants (x : Index) (id : String) : List Entity :=
  x.below x.size (x.topOf id)

/-- All entities: each file, followed by what is below it. -/
def ordered (x : Index) : List Entity :=
  (x.files.filterMap x.find?).flatMap fun f => f :: x.descendants f.id

/-! ## Names in scope -/

/-- Makes an entity known under a key, and what is below it under that key and the rest of its
label: `mod.helper` below a file and `Foo.bar` below a class. -/
def importTree (x : Index) (names : Names) (key : String) (e : Entity) : Names :=
  (x.descendants e.id).foldl (fun n d =>
      if e.kind == .file then n.importAs (key ++ "." ++ d.label) d.id
      else
        match Text.dropBeginning? e.label d.label with
        | some rest =>
          if Text.startsWith rest "." then n.importAs (key ++ rest) d.id else n
        | none => n)
    (names.importAs key e.id)

/-- The entity below a file that goes by a label, at the top of the file before anywhere else. -/
def labelledIn? (x : Index) (label : String) (file : Entity) : Option Entity :=
  match (x.topOf file.id).find? (·.label == label) with
  | some e => some e
  | none => (x.descendants file.id).find? (·.label == label)

/-- The files with a stem. -/
def filesWithStem (x : Index) (stem : String) : List Entity :=
  (x.resolver.filesWithStem stem).filterMap x.find?

/-- The entity that an imported name stands for. -/
def importTarget? (x : Index) (files : List Entity) (n : Import.Name) : Option Entity :=
  match files.findSome? (x.labelledIn? n.name) with
  | some e => some e
  | none =>
    if n.subpath.isEmpty then none
    else
      let own := x.filesWithStem n.subpath
      match own.findSome? (x.labelledIn? n.name) with
      | some e => some e
      | none => own.head?

/-- Makes several entities known under their labels. -/
def importAll (x : Index) (names : Names) (es : List Entity) : Names :=
  es.foldl (fun n e => x.importTree n e.label e) names

/-- Makes known what an import statement of a file brings into scope. -/
def importStatement (x : Index) (language : Language) (names : Names) (s : Import.Statement) :
    Names :=
  if !s.isResolved then names
  else
    let files := x.filesWithStem s.path
    if s.wildcard || (s.names.isEmpty && language.importsWholeFiles) then
      let files :=
        if files.isEmpty then (x.resolver.filesIn s.path).filterMap x.find? else files
      files.foldl (fun n f => x.importAll n ((x.topOf f.id).filter (·.exportable))) names
    else if s.names.isEmpty then
      match files.head? with
      | some f => x.importTree names s.scopeToken f
      | none => names
    else
      s.names.foldl (fun n name =>
        match x.importTarget? files name with
        | some e => x.importTree n name.name e
        | none => n) names

/-- The files of the same package, which a Java file sees without importing them. -/
def packageFiles (x : Index) (file : Entity) (id : String) : List String :=
  if file.language == .java then
    (x.resolver.filesIn ((Path.parent? id).getD "")).filter (· != id)
  else []

/-- The names that the entities of a file can use: its own, then those that it imports. -/
def namesIn (x : Index) (id : String) : Names :=
  match x.find? id with
  | none => .empty
  | some file =>
    let own := (x.descendants id).foldl
      (fun n d => (n.define d.label d.id).define d.name d.id) Names.empty
    let names := file.imports.foldl (x.importStatement file.language) own
    (x.packageFiles file id).foldl (fun n f => x.importAll n (x.topOf f)) names

/-! ## Adding files -/

/-- Adds the entities of a file. -/
def addFile (x : Index) (entities : List Entity) : Index :=
  let x := match entities.head? with
    | some file => { x with files := x.files ++ [file.id] }
    | none => x
  entities.foldl addEntity x

/-- Adds the entities of files whose language is known; counts those and the others. -/
def addFiles : List SourceFile → Index → Nat → Nat → Index × Nat × Nat
  | [], x, parsed, skipped => (x, parsed, skipped)
  | f :: rest, x, parsed, skipped =>
    match extract? f.path f.content with
    | some entities => addFiles rest (x.addFile entities) (parsed + 1) skipped
    | none => addFiles rest x parsed (skipped + 1)

/-- Resolves the imports of one file and counts those that lead nowhere. -/
def resolveFile (r : Import.Resolver) (x : Index × Nat) (id : String) : Index × Nat :=
  match x.1.find? id with
  | none => x
  | some file =>
    let imports := file.imports.map (r.resolve file.id file.language)
    let lost := imports.countP fun s => !Import.Resolver.succeeds file.language s
    ({ x.1 with entities := x.1.entities.insert id { file with imports := imports } },
      x.2 + lost)

/-- Resolves the imports of all files and counts those that lead nowhere. -/
def resolveImports (x : Index) : Index × Nat :=
  x.files.foldl (resolveFile x.resolver) (x, 0)

/-- The uses of a file and of everything below it. -/
def usesInFile (x : Index) (id : String) : List (String × Table (List Nat)) :=
  match x.find? id with
  | none => []
  | some file =>
    let scope : Scope := ⟨file.language, x.namesIn id, file.imports⟩
    let found := (file :: x.descendants id).map fun e =>
      (e.id, Uses.find scope e (x.childrenOf e) (e.parent.bind x.find?))
    found.filter fun f => !f.2.isEmpty

/-- Records that one entity uses another on some lines; says whether that is new. -/
def link (x : Index) (source target : String) (lines : List Nat) : Index × Bool :=
  let known := (x.usesOf? source).getD .empty
  let linked := { x with uses := x.uses.insert source (known.insert target lines) }
  if known.contains target then (linked, false)
  else
    let entities := linked.entities.modify source fun e => { e with outDegree := e.outDegree + 1 }
    let entities := entities.modify target fun e => { e with inDegree := e.inDegree + 1 }
    ({ linked with entities := entities }, true)

/-- Records one use and counts it if it is new; the target must be another indexed entity. -/
def addUse (source : String) (x : Index × Nat) (use : String × List Nat) : Index × Nat :=
  if use.1 == source || !x.1.entities.contains use.1 then x
  else
    let (y, new) := x.1.link source use.1 use.2
    (y, if new then x.2 + 1 else x.2)

/-- Records the uses of entities and counts the new ones. -/
def addUses (x : Index) (found : List (String × Table (List Nat))) : Index × Nat :=
  found.foldl (fun y f => f.2.entries.foldl (addUse f.1) y) (x, 0)

/-- Adds files to the index. -/
def add (x : Index) (files : List SourceFile) : Index × Summary :=
  let (x, parsed, skipped) := addFiles files x 0 0
  let (x, unresolved) := x.resolveImports
  let (x, uses) := x.addUses (x.files.flatMap x.usesInFile)
  (x, ⟨parsed, skipped, x.size, unresolved, uses⟩)

/-! ## Results -/

/-- The records of all entities. -/
def records (x : Index) : List EntityRecord :=
  x.ordered.map fun e => .ofEntity e (x.childrenOf e)

/-- The links from definitions to what surrounds them. -/
def definesLinks (x : Index) : List Link :=
  x.ordered.filterMap fun e => e.parent.map fun p => ⟨e.id, p, .defines, none⟩

/-- The links from entities to what they use. -/
def callsLinks (x : Index) : List Link :=
  x.uses.entries.flatMap fun u =>
    u.2.entries.map fun t => ⟨u.1, t.1, .calls, t.2.head?⟩

/-- All links. -/
def links (x : Index) : List Link := x.definesLinks ++ x.callsLinks

/-- The text of the records. -/
def recordsText (x : Index) : String := EntityRecord.writeAll x.records

/-- The text of the links. -/
def linksText (x : Index) : String := Link.writeAll x.links

end Index
end CodeAtlas

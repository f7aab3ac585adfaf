import CodeAtlas.Path

/-!
# Disks

A disk is a tree of folders and files in memory.  Paths are looked up on it segment by segment:
`..` goes back to the folder that was entered last, and every folder on the way has to exist.
-/

namespace CodeAtlas

/-- A file with its bytes, or a folder with its entries. -/
inductive Entry where
  | file (name : String) (content : ByteArray)
  | folder (name : String) (entries : List Entry)
deriving Inhabited

namespace Entry

/-- The name of an entry. -/
def name : Entry → String
  | file n _ => n
  | folder n _ => n

/-- The entry is a folder. -/
def isFolder : Entry → Bool
  | file _ _ => false
  | folder _ _ => true

/-- The entry with a name. -/
def find? (entries : List Entry) (name : String) : Option Entry :=
  entries.find? (·.name == name)

/-- The entries of the folder with a name. -/
def folder? (entries : List Entry) (name : String) : Option (List Entry) :=
  match find? entries name with
  | some (folder _ es) => some es
  | _ => none

/-- The bytes of the file with a name. -/
def file? (entries : List Entry) (name : String) : Option ByteArray :=
  match find? entries name with
  | some (file _ content) => some content
  | _ => none

/-- Entries with one of them in place of any other of its name. -/
def put (entries : List Entry) (e : Entry) : List Entry :=
  entries.filter (·.name != e.name) ++ [e]

/-- Entries with a file below some folders, which are made where they are missing. -/
def store (content : ByteArray) : List String → List Entry → List Entry
  | [], entries => entries
  | [name], entries => put entries (file name content)
  | name :: rest, entries =>
    put entries (folder name (store content rest ((folder? entries name).getD [])))

end Entry

/-- The entries at the top of a tree. -/
structure Disk where
  entries : List Entry
deriving Inhabited

/-- A folder with its name. -/
structure NamedFolder where
  name : String
  entries : List Entry
deriving Inhabited

/-- A way through folders, the innermost first; `top` is the folder it starts from. -/
structure Trail where
  entered : List NamedFolder
  top : List Entry
deriving Inhabited

namespace Trail

/-- The entries of the innermost folder. -/
def entries (t : Trail) : List Entry :=
  match t.entered with
  | [] => t.top
  | f :: _ => f.entries

/-- Goes one segment further. -/
def step? (t : Trail) (segment : String) : Option Trail :=
  if segment == ".." then some { t with entered := t.entered.drop 1 }
  else (Entry.folder? t.entries segment).map fun es =>
    { t with entered := ⟨segment, es⟩ :: t.entered }

/-- Goes along segments. -/
def walk? : Trail → List String → Option Trail
  | t, [] => some t
  | t, s :: rest => (t.step? s).bind (walk? · rest)

/-- The names of the folders, the outermost first. -/
def names (t : Trail) : List String := (t.entered.map (·.name)).reverse

end Trail

/-- What a path leads to. -/
inductive Target where
  | file (content : ByteArray)
  | folder (trail : Trail)

/-- Why a file cannot be written. -/
inductive WriteError where
  | missingFolder
  | notFolder
  | isFolder
deriving DecidableEq, Repr

/-- The wording of an error. -/
def WriteError.message : WriteError → String
  | .missingFolder => "No such file or directory (os error 2)"
  | .notFolder => "Not a directory (os error 20)"
  | .isFolder => "Is a directory (os error 21)"

namespace Disk

/-- The disk without anything on it. -/
def empty : Disk := ⟨[]⟩

/-- The way that has not entered any folder. -/
def start (d : Disk) : Trail := ⟨[], d.entries⟩

/-- The segments of a path that name something. -/
def segments (path : String) : List String :=
  ((Path.rawSegments path).filter Path.names).map String.ofList

/-- What a path leads to. -/
def locate? (d : Disk) (path : String) : Option Target :=
  match d.start.walk? (segments path) with
  | some t => some (.folder t)
  | none =>
    match (segments path).getLast? with
    | none => none
    | some last =>
      if Text.endsWith path "/" then none
      else do
        let t ← d.start.walk? (segments path).dropLast
        return .file (← Entry.file? t.entries last)

/-- The bytes of a file. -/
def read? (d : Disk) (path : String) : Option ByteArray :=
  match d.locate? path with
  | some (.file content) => some content
  | _ => none

/-- Puts a file on the disk together with the folders above it. -/
def store (d : Disk) (path : String) (content : ByteArray) : Disk :=
  ⟨Entry.store content (segments path) d.entries⟩

/-- Some folder on a way is in fact a file. -/
def blocked (t : Trail) : List String → Bool
  | [] => false
  | s :: rest =>
    match t.step? s with
    | some t => blocked t rest
    | none => (Entry.file? t.entries s).isSome

/-- Writes a file into a folder that exists. -/
def write (d : Disk) (path : String) (content : ByteArray) : Except WriteError Disk :=
  match d.locate? path, (segments path).getLast? with
  | some (.folder _), _ => .error .isFolder
  | _, none => .error .missingFolder
  | _, some last =>
    let folders := (segments path).dropLast
    match d.start.walk? folders with
    | none => .error (if blocked d.start folders then .notFolder else .missingFolder)
    | some t =>
      if Text.endsWith path "/" then .error .isFolder
      else .ok ⟨Entry.store content (t.names ++ [last]) d.entries⟩

end Disk
end CodeAtlas

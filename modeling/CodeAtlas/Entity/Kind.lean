/-!
# Kinds of entities

What an entity of the index is.  A definition is labelled with its kind by the pattern that finds
it; a method is found as a function and becomes a method when a class or an interface claims it.
-/

namespace CodeAtlas

/-- What an entity is; an export marks what it wraps and is never part of a result. -/
inductive EntityKind where
  | file
  | folder
  | function
  | cls
  | interface
  | method
  | enum
  | struct
  | union
  | namespace
  | module
  | export
  | type
  | assignment
deriving DecidableEq, Repr, Inhabited

namespace EntityKind

/-- All kinds. -/
def all : List EntityKind :=
  [.file, .folder, .function, .cls, .interface, .method, .enum, .struct, .union, .namespace,
    .module, .export, .type, .assignment]

/-- The name of a kind. -/
def name : EntityKind → String
  | .file => "file"
  | .folder => "folder"
  | .function => "function"
  | .cls => "class"
  | .interface => "interface"
  | .method => "method"
  | .enum => "enum"
  | .struct => "struct"
  | .union => "union"
  | .namespace => "namespace"
  | .module => "module"
  | .export => "export"
  | .type => "type"
  | .assignment => "assignment"

/-- The kind with a name. -/
def ofName? (n : String) : Option EntityKind :=
  all.find? fun k => k.name == n

/-- The kind of a definition with a label. -/
def ofLabel? (label : String) : Option EntityKind :=
  match label with
  | "function" | "method" => some .function
  | "class" => some .cls
  | "interface" => some .interface
  | "enum" => some .enum
  | "struct" => some .struct
  | "union" => some .union
  | "namespace" => some .namespace
  | "module" => some .module
  | "export" => some .export
  | "type" => some .type
  | "assignment" => some .assignment
  | _ => none

/-- Functions inside it are methods. -/
def isClassLike : EntityKind → Bool
  | .cls | .interface => true
  | _ => false

end EntityKind
end CodeAtlas

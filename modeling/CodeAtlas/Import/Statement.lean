import CodeAtlas.Span
import CodeAtlas.Text.Dotted

/-!
# Import statements

What an import statement says: the module it names as written, the names it takes from it, and
where both were found among the indexed files.  A path is empty as long as nothing was found.
-/

namespace CodeAtlas
namespace Import

/-- A name taken from a module; `subpath` is set when the name is a module itself. -/
structure Name where
  name : String
  otherName : String
  subpath : String
deriving DecidableEq, Repr, Inhabited

/-- An import of one module. -/
structure Statement where
  module : String
  moduleAlias : String
  names : List Name
  path : String
  code : String
  start : Position
  stop : Position
  wildcard : Bool
deriving DecidableEq, Repr, Inhabited

namespace Statement

/-- The module was found. -/
def isResolved (s : Statement) : Bool := !s.path.isEmpty

/-- The word that stands for the module as a whole once aliases are replaced. -/
def scopeToken (s : Statement) : String :=
  if Text.isDotted s.module then s.module else s.moduleAlias

/-- The aliases of the statement that are replaced by what they stand for. -/
def renamings (s : Statement) : List (String × String) :=
  let named := s.names.filterMap fun n =>
    if !n.otherName.isEmpty && n.otherName != n.name then some (n.otherName, n.name) else none
  if s.names.isEmpty && !s.moduleAlias.isEmpty && s.moduleAlias != s.module &&
      Text.isDotted s.module then
    named ++ [(s.moduleAlias, s.module)]
  else named

end Statement
end Import
end CodeAtlas

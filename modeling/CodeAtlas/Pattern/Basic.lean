import CodeAtlas.Syntax.Tree
import CodeAtlas.Text.Regex

/-!
# Patterns over syntax trees

A pattern describes a node by its kind, by fields that none of its children fills, and by
patterns for some of its children in source order.  A node described by a pattern may be
captured under a label.  Beside a pattern stand conditions on the texts of captured nodes.
-/

namespace CodeAtlas
namespace Pattern

open Syntax (Site)

mutual

/-- A description of a node; the kind `_` stands for any. -/
inductive Shape where
  | node (kind : String) (absent : List String) (children : Children)
  | either (left right : Shape)
  | captured (label : String) (inner : Shape)

/-- Descriptions of children in source order.

A child may be bound to a field, which is empty when it is not, and may have to follow its
predecessor at once; `done true` says that the last one described is the last child there is. -/
inductive Children where
  | done (closed : Bool)
  | child (field : String) (immediate : Bool) (head : Shape) (tail : Children)

end

instance : Inhabited Shape := ⟨.node "_" [] (.done false)⟩

/-- A condition on the texts of the nodes captured under a label. -/
inductive Condition where
  | isText (label text : String)
  | sameText (label other : String)
  | isOneOf (label : String) (texts : List String)
  | holds (label : String) (expression : Text.Regex)

/-- A pattern with the conditions on its captures. -/
structure Query where
  pattern : Shape
  conditions : List Condition
deriving Inhabited

/-- A captured node with its label. -/
structure Labelled where
  label : String
  site : Site
deriving Inhabited

/-- The nodes captured by a match in tree order, and the last node that was described. -/
structure Match where
  captures : List Labelled
  final : Site
deriving Inhabited

end Pattern
end CodeAtlas

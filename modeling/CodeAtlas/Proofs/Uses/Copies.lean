import CodeAtlas.Proofs.Pattern
import CodeAtlas.Proofs.Related
import CodeAtlas.Proofs.Uses.Windows
import Mathlib.Logic.Function.Basic

/-!
# Copies in straight-line code

Straight-line code copies names into variables and calls members of variables.  When the windows of
its copies are applied to a call, the object becomes what was copied to it, then what was copied to
that before, and so on, as the later windows come first.  A class at the end of this chase is what
the object stands for when the code runs row by row; and if every variable is assigned once, before
it is read, the chase does end at a class.
-/

namespace CodeAtlas
namespace Uses

/-- A row of straight-line code: a copy `x = y`, or a use `x.m()`. -/
inductive Row where
  | copy (left right : String)
  | use (object member : String)
deriving DecidableEq, Repr

namespace Row

def text : Row → String
  | copy left right => left ++ " = " ++ right
  | use object member => Text.memberCall object member

/-- The variable that the row assigns to. -/
def left? : Row → Option String
  | copy left _ => some left
  | use _ _ => none

/-- The name that the row reads. -/
def read : Row → String
  | copy _ right => right
  | use object _ => object

/-- The row is made of identifiers and assigns to a variable. -/
def Plain (isVariable : String → Bool) : Row → Prop
  | copy left right => isVariable left = true ∧ Text.isIdentifier left = true ∧
      Text.isIdentifier right = true
  | use object member => Text.isIdentifier object = true ∧ Text.isIdentifier member = true

end Row

/-- The variables that rows assign to, as often as they do. -/
def assigned (rows : List Row) : List String := rows.filterMap Row.left?

/-- What names stand for: a class for itself, and a variable for what was copied to it. -/
def valueOf (isVariable : String → Bool) (env : String → Option String) (name : String) :
    Option String :=
  if isVariable name then env name else some name

def Row.run (isVariable : String → Bool) (env : String → Option String) :
    Row → String → Option String
  | copy left right => Function.update env left (valueOf isVariable env right)
  | use _ _ => env

variable {isVariable : String → Bool}

/-- A match describes a copy: it captures the two sides of it, and it stands on its row. -/
structure Describes (copy : Nat × String × String) (captures : List Capture) : Prop where
  left : (captures.find? (·.label == "left")).map (·.text) = some copy.2.1
  right : (captures.find? (·.label == "right")).map (·.text) = some copy.2.2
  row : (anchor? captures).map (·.span.start.row) = some copy.1

end Uses
end CodeAtlas

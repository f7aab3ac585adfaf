import CodeAtlas.Table
import CodeAtlas.Text.Split

/-!
# Names in scope

The names that the entities of one file can use, with the ids of what they stand for.  A name that
the file defines itself takes the place of an imported one, and of several imports of a name the
first one counts.  The empty text is never a name.

A dotted token is looked up as a whole first, and then by its longest part of at least two
segments, so that `Shop.open.now` uses `Shop.open` and `Shop.other` does not use `Shop`.
-/

namespace CodeAtlas

/-- Names with the ids of the entities that they stand for. -/
structure Names where
  table : Table String
deriving Repr, Inhabited, DecidableEq

namespace Names

/-- No names. -/
def empty : Names := ⟨.empty⟩

/-- Adds a name of the file itself. -/
def define (n : Names) (name id : String) : Names :=
  if name.isEmpty then n else ⟨n.table.insert name id⟩

/-- Adds an imported name, unless the name is known already. -/
def importAs (n : Names) (name id : String) : Names :=
  if name.isEmpty then n else ⟨n.table.insertNew name id⟩

/-- What a name stands for. -/
def find? (n : Names) (name : String) : Option String := n.table.find? name

/-- The number of names. -/
def size (n : Names) : Nat := n.table.size

/-- There are no names. -/
def isEmpty (n : Names) : Bool := n.table.isEmpty

/-- What the longest part of a token with at least two and at most `k` segments stands for. -/
def resolvePart? (n : Names) (segments : List String) : Nat → Option String
  | 0 | 1 => none
  | k + 1 =>
    match n.find? (Text.join "." (segments.take (k + 1))) with
    | some id => some id
    | none => resolvePart? n segments k

/-- What a dotted token stands for. -/
def resolve? (n : Names) (token : String) : Option String :=
  match n.find? token with
  | some id => some id
  | none =>
    let segments := Text.split '.' token
    n.resolvePart? segments (segments.length - 1)

end Names
end CodeAtlas

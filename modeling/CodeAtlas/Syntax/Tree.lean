import CodeAtlas.Syntax.Source

/-!
# Syntax trees

A tree holds the named nodes of a parsed text.  Each node has a kind, the field it fills in its
parent (empty when it fills none), the character indices of its two ends, and its children in
source order.  A bare lexeme that fills a field stands in the tree as a node without a kind; it is
not named, and only counts when one asks whether the field is filled.  A site is a node together with the way down to it from the root: the parents and
earlier siblings that a question about its surroundings needs.
-/

namespace CodeAtlas
namespace Syntax

/-- A named node with its children. -/
inductive Tree where
  | node (kind field : String) (first stop : Nat) (children : List Tree)
deriving Inhabited

namespace Tree

/-- The kind of the node. -/
def kind : Tree → String
  | node k _ _ _ _ => k

/-- The field the node fills in its parent. -/
def field : Tree → String
  | node _ f _ _ _ => f

/-- The index of the first character. -/
def first : Tree → Nat
  | node _ _ a _ _ => a

/-- The index behind the last character. -/
def stop : Tree → Nat
  | node _ _ _ b _ => b

/-- The children in source order. -/
def children : Tree → List Tree
  | node _ _ _ _ cs => cs

/-- The named children in source order. -/
def named (t : Tree) : List Tree := t.children.filter (·.kind != "")

/-- The node in another role. -/
def withField (name : String) : Tree → Tree
  | node k _ a b cs => node k name a b cs

/-- The node under another kind. -/
def withKind (name : String) : Tree → Tree
  | node _ f a b cs => node name f a b cs

/-- The first child in a role. -/
def childIn? (t : Tree) (name : String) : Option Tree :=
  t.children.find? fun c => c.field == name

mutual

/-- The number of nodes of the tree. -/
def size : Tree → Nat
  | node _ _ _ _ cs => sizeAll cs + 1

/-- The number of nodes of several trees. -/
def sizeAll : List Tree → Nat
  | [] => 0
  | t :: rest => t.size + sizeAll rest

end

mutual

/-- Puts a node into the smallest node that surrounds it. -/
def insert (new : Tree) : Tree → Tree
  | node k f a b cs => node k f a b (insertAmong new cs)

/-- Puts a node into the sibling that surrounds it, or between the siblings. -/
def insertAmong (new : Tree) : List Tree → List Tree
  | [] => [new]
  | t :: rest =>
    if t.first ≤ new.first && new.stop ≤ t.stop && t.first != t.stop then insert new t :: rest
    else if new.first < t.first then new :: t :: rest
    else t :: insertAmong new rest

end

end Tree

/-- A node of a tree and the way to it: its parents with the siblings before it, the nearest
first. -/
structure Site where
  tree : Tree
  way : List (Tree × List Tree)
  path : List Nat
deriving Inhabited

namespace Site

/-- The site of a root. -/
def root (t : Tree) : Site := ⟨t, [], []⟩

/-- The sites of children; `before` are the siblings already passed, the nearest first. -/
def among (parent : Site) (before : List Tree) (index : Nat) : List Tree → List Site
  | [] => []
  | t :: rest =>
    ⟨t, (parent.tree, before) :: parent.way, index :: parent.path⟩ ::
      among parent (t :: before) (index + 1) rest

/-- The sites of the named children. -/
def children (s : Site) : List Site :=
  s.among [] 0 s.tree.named

/-- The parent node. -/
def parent? (s : Site) : Option Site :=
  match s.way, s.path with
  | (p, _) :: way, _ :: path => some ⟨p, way, path⟩
  | _, _ => none

/-- The siblings before the node, the nearest first. -/
def before (s : Site) : List Tree :=
  match s.way with
  | (_, b) :: _ => b
  | [] => []

/-- The siblings behind the node, the nearest first. -/
def behind (s : Site) : List Tree :=
  match s.way with
  | (p, b) :: _ => p.named.drop (b.length + 1)
  | [] => []

/-- The depth of the node below the root. -/
def depth (s : Site) : Nat := s.path.length

end Site

end Syntax
end CodeAtlas

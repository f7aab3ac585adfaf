import CodeAtlas.Pattern.Basic

/-!
# Searching a tree for patterns

All ways in which a pattern describes a node are found by trying, for each described child, every
child of the node behind the one chosen before it.  Two ways that capture the same nodes count
once.  The matches of a group of patterns come in the order in which a walk over the tree in
source order reaches the last node each of them describes; of those that end at the same node, a
match whose root lies higher comes first, then the one of the earlier pattern.
-/

namespace CodeAtlas
namespace Pattern

open Syntax (Tree Site Source)

/-- Every site of a list with the sites behind it. -/
def choices : List Site → List (Site × List Site)
  | [] => []
  | s :: rest => (s, rest) :: choices rest

/-- The choices for a child that may have to be the next one. -/
def candidates (immediate : Bool) (sites : List Site) : List (Site × List Site) :=
  if immediate then (choices sites).take 1 else choices sites

mutual

/-- The ways in which a pattern describes a node. -/
def Shape.matchesAt : Shape → Site → List Match
  | .captured label inner, s =>
    (inner.matchesAt s).map fun m => { m with captures := ⟨label, s⟩ :: m.captures }
  | .either left right, s => left.matchesAt s ++ right.matchesAt s
  | .node kind absent children, s =>
    if (kind == "_" || kind == s.tree.kind) &&
        absent.all (fun f => (s.tree.childIn? f).isNone) then
      children.matchesAmong s s.children
    else []

/-- The ways in which patterns describe some of a list of children, in order. -/
def Children.matchesAmong : Children → Site → List Site → List Match
  | .done closed, last, sites => if closed && !sites.isEmpty then [] else [⟨[], last⟩]
  | .child field immediate head tail, _, sites =>
    (candidates immediate sites).flatMap fun choice =>
      if field == "" || choice.1.tree.field == field then
        (head.matchesAt choice.1).flatMap fun m =>
          (tail.matchesAmong m.final choice.2).map fun n =>
            ⟨m.captures ++ n.captures, n.final⟩
      else []

end

/-- The texts of the nodes captured under a label. -/
def Match.texts (m : Match) (source : Source) (label : String) : List String :=
  (m.captures.filter (·.label == label)).map fun c =>
    source.text c.site.tree.first c.site.tree.stop

/-- A condition holds for every node captured under its label. -/
def Condition.check (source : Source) (m : Match) : Condition → Bool
  | .isText label text => (m.texts source label).all (· == text)
  | .sameText label other => m.texts source label == m.texts source other
  | .isOneOf label texts => (m.texts source label).all texts.contains
  | .holds label expression => (m.texts source label).all expression.found

/-- The two matches capture the same nodes under the same labels. -/
def Match.sameCaptures (a b : Match) : Bool :=
  a.captures.map (fun c => (c.label, c.site.path)) == b.captures.map (fun c => (c.label, c.site.path))

/-- The matches without repetitions. -/
def distinctMatches (ms : List Match) : List Match :=
  ms.foldl (fun kept m => if kept.any (·.sameCaptures m) then kept else kept ++ [m]) []

/-- The matches of a query with a node as its root. -/
def Query.matchesAt (q : Query) (source : Source) (s : Site) : List Match :=
  distinctMatches
    ((q.pattern.matchesAt s).filter fun m => q.conditions.all (·.check source m))

/-- The node and everything below it in source order, at most `fuel` levels deep. -/
def sitesBelow : Nat → Site → List Site
  | 0, s => [s]
  | fuel + 1, s => s :: s.children.flatMap (sitesBelow fuel)

/-- The node and everything below it in source order. -/
def allSites (s : Site) : List Site :=
  sitesBelow s.tree.size s

/-- One path comes before another in a walk in source order. -/
def pathBefore : List Nat → List Nat → Bool
  | [], [] => true
  | [], _ :: _ => true
  | _ :: _, [] => false
  | a :: as, b :: bs => a < b || (a == b && pathBefore as bs)

/-- A match with what decides its place among the others. -/
structure Ranked where
  value : Match
  order : List Nat
  depth : Nat
  pattern : Nat

/-- The order in which matches are found. -/
def Ranked.before (a b : Ranked) : Bool :=
  if a.order != b.order then pathBefore a.order b.order
  else a.depth < b.depth || (a.depth == b.depth && a.pattern ≤ b.pattern)

/-- The matches of a group of queries in a tree, in the order in which they are found. -/
def search (queries : List Query) (source : Source) (root : Site) : List Match :=
  let ranked := (allSites root).flatMap fun s =>
    queries.zipIdx.flatMap fun (q, i) =>
      (q.matchesAt source s).map fun m => ⟨m, m.final.path.reverse, s.depth, i⟩
  (ranked.mergeSort Ranked.before).map (·.value)

end Pattern
end CodeAtlas

import CodeAtlas.Syntax.Parser

/-!
# Mending texts that do not fit

A text that does not fit its grammar is read again with a repair at the place where reading got
stuck, until it fits or nothing is left to repair.  The statement in front of the place may be
ended there, and the lexeme at the place or up to three before it may be left out; the first repair
that gets reading on wins, and the lexeme at the place is left out if none does.  What is left
out is lost to the tree; the rest of the text keeps its places.
-/

namespace CodeAtlas
namespace Syntax

/-- The places at which the lexemes of a text start, the last one first. -/
def lexemeStarts (e : Env) : Nat → Nat → List Nat → List Nat
  | 0, _, starts => starts
  | fuel + 1, i, starts =>
    let j := (e.pass false (e.source.size + 1) i []).1
    if e.source.size ≤ j then starts else lexemeStarts e fuel (e.lexemeEnd j) (j :: starts)

/-- The starts of the lexemes before a place, the nearest first, given all starts from the last to
the first. -/
def startsBefore (starts : List Nat) (i : Nat) : List Nat := starts.dropWhile (i ≤ ·)

/-- The start of the lexeme after a place, given all starts from the last to the first. -/
def startAfter (starts : List Nat) (i : Nat) : Nat :=
  ((starts.takeWhile (i < ·)).getLast?).getD i

/-- Reading came further than a place. -/
def goesBeyond (outcome : Except Nat Tree) (i : Nat) : Bool :=
  match outcome with
  | .ok _ => true
  | .error far => i < far

namespace Repair

/-- Leaves out more lexemes. -/
def without (r : Repair) (places : List Nat) : Repair := { r with dropped := places ++ r.dropped }

/-- Ends the statement in front of a place. -/
def endedAt (r : Repair) (i : Nat) : Repair := { r with ended := i :: r.ended }

end Repair

/-- The repairs to try in turn when reading got stuck at a place, each with the place that reading
has to get beyond with it. -/
def candidates (starts : List Nat) (repair : Repair) (i : Nat) : List (Repair × Nat) :=
  let before := startsBefore starts i
  let after := startAfter starts i
  [(repair.endedAt i, i), (repair.without (before.take 1), i), (repair.without [i], after),
    (repair.without (i :: before.take 1), after), (repair.without (before.take 2), i),
    (repair.without (before.take 3), i)]

/-- The repair to go on with when reading got stuck at a place. -/
def nextRepair (attempt : Repair → Except Nat Tree) (starts : List Nat) (repair : Repair)
    (i : Nat) : Repair :=
  match (candidates starts repair i).find? fun c => goesBeyond (attempt c.1) c.2 with
  | some c => c.1
  | none => repair.without [i]

/-- Reads a text with one repair after the other. -/
def mendFrom (attempt : Repair → Except Nat Tree) (starts : List Nat) : Nat → Repair → Option Tree
  | 0, _ => none
  | fuel + 1, repair =>
    match attempt repair with
    | .ok t => some t
    | .error far =>
      if repair.dropped.contains far then none
      else mendFrom attempt starts fuel (nextRepair attempt starts repair far)

/-- Reads a text, repaired as far as needed. -/
def mend (lexis : Lexis) (source : Source) (attempt : Repair → Except Nat Tree) : Option Tree :=
  let whole : Repair := ⟨[], []⟩
  match attempt whole with
  | .ok t => some t
  | .error _ =>
    let starts := lexemeStarts ⟨source, lexis, whole⟩ (source.size + 1) 0 []
    mendFrom attempt starts (2 * source.size + 2) whole

end Syntax
end CodeAtlas

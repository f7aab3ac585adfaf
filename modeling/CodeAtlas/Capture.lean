import CodeAtlas.Catalogue
import CodeAtlas.Pattern.Search
import CodeAtlas.Syntax

/-!
# Captures

A capture is a piece of a text with a label, found by a pattern of the catalogue.  The captures
of one match belong together.  Labels that start with an underscore serve conditions only and are
not reported.
-/

namespace CodeAtlas

open Syntax (Site Tree Parsed)
open Pattern (Labelled Match)
open Catalogue (Purpose)

/-- A labelled piece of a text. -/
structure Capture where
  label : String
  text : String
  span : Span
  declaredName : Bool
deriving DecidableEq, Repr, Inhabited

namespace Capture

/-- The node is the name in the declaration that it belongs to. -/
def isDeclaredName (s : Site) : Bool :=
  match s.parent? with
  | none => false
  | some p =>
    (Text.endsWith p.tree.kind "_declaration" || p.tree.kind == "type_parameter") &&
      match p.children.find? fun c => c.tree.field == "name" with
      | some c => c.path == s.path
      | none => false

/-- The capture of a labelled node. -/
def ofLabelled (p : Parsed) (l : Labelled) : Capture where
  label := l.label
  text := p.text l.site
  span := p.span l.site
  declaredName := isDeclaredName l.site

/-- The captures of a match that are reported. -/
def reported (m : Match) : List Labelled :=
  m.captures.filter fun c => c.label.toList.head? != some '_'

/-- The labelled nodes that the catalogue finds below a node, match by match. -/
def labelled (p : Parsed) (purpose : Purpose) (root : Site) : List (List Labelled) :=
  (Catalogue.queries p.language purpose).flatMap fun group =>
    (Pattern.search group p.source root).map reported

/-- The captures that the catalogue finds in a text, match by match. -/
def all (p : Parsed) (purpose : Purpose) : List (List Capture) :=
  (labelled p purpose p.root).map fun m => m.map (ofLabelled p)

/-- The statements at the top of a text that call something on a variable. -/
def chainedCalls (p : Parsed) (name : String) : List Capture :=
  match Pattern.readGroup? (Catalogue.chainedCalls p.language name) with
  | none => []
  | some group =>
    (Pattern.search group p.source p.root).flatMap fun m =>
      ((reported m).filter (·.label == "code")).map (ofLabelled p)

end Capture
end CodeAtlas

import CodeAtlas.Import.Draft
import CodeAtlas.Proofs.Sorting
import Mathlib.Data.List.Induction

/-!
# Parts of an import statement, put together

The parts of a statement come from several patterns, so that they repeat one another and say more or
less each.  They are gathered by looking each one's module up among the statements so far, and its
name among the names of that statement; whatever is not there yet is added at the end.  Both are one
way of grouping a list by a key: there is one group for each key, in the order in which the keys
appear first, and the members of a group are put together from left to right.
-/

namespace CodeAtlas

/-! ## Grouping by a key -/

namespace Grouping

variable {α β : Type}

end Grouping

namespace Import

/-! ## What parts say together -/

/-- The aliases that parts give for a name, or for the module as a whole. -/
def aliasesFor (name : Option String) (parts : List Part) : List String :=
  (parts.filter (·.name == name)).filterMap (·.otherName)

namespace Draft

/-- The wildcards among the parts of a draft if there is one, and else all parts. -/
def kept (d : Draft) : List Part :=
  if ∃ p ∈ d.parts, p.wildcard = true then d.parts.filter (·.wildcard) else d.parts

end Draft

/-! ## Names -/

/-- A name with the alias that is given for it, unless that is empty. -/
def Name.renamed (n : Name) (given : String × String) : Name :=
  if given.2.isEmpty then n else { n with otherName := given.2 }

/-- The name that a part takes from its module, with an alias that may be empty. -/
def Part.given? (p : Part) : Option (String × String) := p.name.map fun n => (n, p.otherName.getD "")

/-- What parts add to a statement, before a module without an alias is given its own name. -/
theorem foldl_add (s : Statement) (parts : List Part) :
    parts.foldl Statement.add s =
      { s with
        moduleAlias := (aliasesFor none parts).getLastD s.moduleAlias
        names := (parts.filterMap Part.given?).foldl (fun names g => addName g.1 g.2 names) s.names
        wildcard := s.wildcard || parts.any (·.wildcard) } := by
  induction parts generalizing s with
  | nil => simp [aliasesFor]
  | cons p parts ih =>
      rw [List.foldl_cons, ih, Statement.add]
      cases hname : p.name with
      | some n => simp [aliasesFor, Part.given?, hname, Bool.or_assoc]
      | none =>
          cases halias : p.otherName with
          | none => simp [aliasesFor, Part.given?, hname, halias, Bool.or_assoc]
          | some a =>
              have hlast : aliasesFor none (p :: parts) = a :: aliasesFor none parts := by
                simp [aliasesFor, hname, halias]
              rw [hlast, List.getLastD_cons]
              simp [Part.given?, hname, Bool.or_assoc]

end Import
end CodeAtlas

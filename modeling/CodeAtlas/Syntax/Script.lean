import CodeAtlas.Syntax.Script.Statement

/-!
# JavaScript and TypeScript

The grammar of the three dialects: JavaScript with markup, TypeScript, and TypeScript with markup.
-/

namespace CodeAtlas
namespace Syntax
namespace Script

open CodeAtlas.Syntax.Parser

/-- JavaScript. -/
def javascript : Dialect := ⟨false, true⟩

/-- TypeScript. -/
def typescript : Dialect := ⟨true, false⟩

/-- TypeScript with markup. -/
def tsx : Dialect := ⟨true, true⟩

/-- The productions of a dialect. -/
def grammar (d : Dialect) : Grammar Rule := fun r rule =>
  match rule with
  | .statement => statement d r
  | .block => block r
  | .expression => expression d r
  | .expressions => expressions r
  | .operand level => operand d r level
  | .constructor => constructed d r
  | .pattern => pattern r
  | .parameters => parameters d r
  | .signature => signature d r
  | .classBody => classBody d r
  | .arguments => arguments r
  | .string => string
  | .template => template "template_string" (r .expressions)
  | .element => element d r
  | .type => type r
  | .primaryType => primaryType r
  | .objectType => objectType r
  | .typeArguments => typeArguments r
  | .typeParameters => typeParameters r

/-- The row at the start of a text that names its interpreter. -/
def interpreterRow : Parser Unit := do
  let s ← source
  let i := if s.charAt 0 == '\uFEFF' then 1 else 0
  if s.hasAt i ['#', '!'] then piece "hash_bang_line" i (s.endOfRow i)

/-- A whole program. -/
def program (d : Dialect) (fuel : Nat) : Parser Unit :=
  node "program" (do
    interpreterRow
    many ((grammar d).run fuel .statement))

/-- The tree of a text, or the furthest place at which it does not fit the grammar. -/
def parse (d : Dialect) (source : Source) (repair : Repair) : Except Nat Tree :=
  parseWhole lexis source repair false (program d (16 * source.size + 64))

end Script
end Syntax
end CodeAtlas

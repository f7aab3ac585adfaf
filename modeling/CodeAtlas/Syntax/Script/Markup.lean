import CodeAtlas.Syntax.Script.Type

/-!
# Markup in JavaScript and TypeScript

Elements with attributes, text and expressions between braces.
-/

namespace CodeAtlas
namespace Syntax
namespace Script

open CodeAtlas.Syntax.Parser

/-- The end of a name in markup, where hyphens are allowed. -/
def markupNameEnd? (s : Source) (i : Nat) : Option Nat :=
  if startsWord (s.charAt i) then
    some (s.scanWhile (fun c => continuesWord c || c == '-') (i + 1))
  else none

/-- A name in markup. -/
def markupName (kind : String) : Parser Unit := node kind (lexeme markupNameEnd?)

/-- The name of an element. -/
def elementName : Parser Unit := do
  if ← ahead (do markupName "identifier"; sign ":") then
    node "jsx_namespace_name" (do markupName "identifier"; sign ":"; markupName "identifier")
  else
    markupName "identifier"
    many (extend "member_expression" "object" (do
      sign "."
      field "property" (markupName "property_identifier")))

/-- An expression between braces, or nothing. -/
def markupExpression (r : Rule → Parser Unit) : Parser Unit :=
  node "jsx_expression" (do
    exactly openBrace
    opt (node "spread_element" (do sign "..."; r .expression) <|> r .expressions)
    exactly closeBrace)

/-- A quoted attribute value, in which a backslash is a character like any other. -/
def markupString : Parser Unit := do
  let quote ← nextChar
  if quote == '"' || quote == '\'' then
    node "string" (do
      let i ← here
      let s ← source
      consumeTo (i + 1)
      let j := s.scanWhile (· != quote) (i + 1)
      if i + 1 < j then piece "string_fragment" (i + 1) j
      exactly (String.singleton quote))
  else fail

/-- An attribute of an element. -/
def markupAttribute (r : Rule → Parser Unit) : Parser Unit :=
  markupExpression r <|> node "jsx_attribute" (do
    (do
      peek (do markupName "property_identifier"; sign ":")
      node "jsx_namespace_name" (do markupName "identifier"; sign ":"; markupName "identifier"))
      <|> markupName "property_identifier"
    opt (do
      sign "="
      oneOf [markupString, markupExpression r, r .element]))

/-- The text up to the next element or expression. -/
def markupText : Parser Unit := do
  let i ← position
  let s ← source
  let j := s.scanWhile (fun c => c != '<' && c != '{' && c != '>' && c != '}') i
  if i < j then
    if (s.slice i j).all Text.isBlank then jumpTo j else piece "jsx_text" i j
  else fail

/-- What stands between the tags of an element. -/
def markupChild (r : Rule → Parser Unit) : Parser Unit := do
  let i ← position
  let s ← source
  match s.get? i with
  | some '{' => markupExpression r
  | some '<' => if s.charAt (i + 1) == '/' then fail else r .element
  | _ => markupText

/-- The name and the attributes of a tag. -/
def tagContent (d : Dialect) (r : Rule → Parser Unit) : Parser Unit := do
  field "name" elementName
  if d.typed then
    opt (do
      peek (exactly "<")
      field "type_arguments" (r .typeArguments))
  many (field "attribute" (markupAttribute r))

/-- An element, closed by itself or by a tag of its own. -/
def element (d : Dialect) (r : Rule → Parser Unit) : Parser Unit := do
  nodeOf (do
    exactly "<"
    opt (tagContent d r)
    let closed ← found (sign "/")
    exactly ">"
    return if closed then "jsx_self_closing_element" else "jsx_opening_element")
  if (← lastKind) == "jsx_opening_element" then
    extend "jsx_element" "open_tag" (do
      many (markupChild r)
      field "close_tag" (node "jsx_closing_element" (do
        exactly "<"
        sign "/"
        opt (field "name" elementName)
        exactly ">")))

end Script
end Syntax
end CodeAtlas

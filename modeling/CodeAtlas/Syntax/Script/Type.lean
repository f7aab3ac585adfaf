import CodeAtlas.Syntax.Script.Lexis

/-!
# Types of TypeScript

Type annotations, type parameters and arguments, and the forms of types: names, functions, objects,
tuples, unions, conditional types and the rest.
-/

namespace CodeAtlas
namespace Syntax
namespace Script

open CodeAtlas.Syntax.Parser

/-- The name of a type. -/
def typeName : Parser Unit := node "type_identifier" (freeWord keywords)

/-- The types that are built in. -/
def builtInTypes : List String :=
  ["any", "number", "boolean", "string", "symbol", "unknown", "void", "never", "object"]

/-- A member name: a word, a private name, a string, a number or an expression in brackets. -/
def propertyName (r : Rule → Parser Unit) : Parser Unit := do
  match ← nextChar with
  | '[' => node "computed_property_name" (between "[" "]" (r .expression))
  | '#' => privateName
  | '"' | '\'' => r .string
  | _ => node "property_identifier" (freeWord []) <|> number

/-- Type arguments in angle brackets. -/
def typeArguments (r : Rule → Parser Unit) : Parser Unit :=
  node "type_arguments" (do
    exactly "<"
    sepBy1 (r .type) comma
    opt comma
    exactly ">")

/-- Type parameters in angle brackets. -/
def typeParameters (r : Rule → Parser Unit) : Parser Unit :=
  node "type_parameters" (do
    exactly "<"
    sepBy1 (node "type_parameter" (do
      opt (do word "const"; peek typeName)
      field "name" typeName
      opt (field "constraint" (node "constraint" (do word "extends"; r .type)))
      opt (field "value" (node "default_type" (do sign "="; r .type))))) comma
    opt comma
    exactly ">")

/-- What a type guard says about a value. -/
def typePredicate (r : Rule → Parser Unit) : Parser Unit :=
  node "type_predicate" (do
    field "name" (node "this" (word "this") <|> name)
    sameRow
    word "is"
    field "type" (r .type))

/-- What a function says about its argument when it returns. -/
def assertion (r : Rule → Parser Unit) : Parser Unit :=
  node "asserts" (do
    word "asserts"
    sameRow
    oneOf [typePredicate r, node "this" (word "this"), name])

/-- A type annotation. -/
def typeNote (r : Rule → Parser Unit) : Parser Unit :=
  node "type_annotation" (do sign ":"; r .type)

/-- The annotation of what a function returns. -/
def resultNote (r : Rule → Parser Unit) : Parser Unit := oneOf [
  node "asserts_annotation" (do sign ":"; assertion r),
  node "type_predicate_annotation" (do sign ":"; typePredicate r),
  typeNote r]

/-- The next lexeme ends a member of an object type. -/
def memberEnd : Parser Unit := do
  if ← found (signIn [";", ","]) then return
  if (← nextChar) == '}' then return
  check (← rowEnds)

/-- The signs behind a word that make it the name of a member and not a modifier. -/
def namedSigns : List String := ["(", ")", ":", "=", ";", ",", "?", "!", "<", closeBrace]

/-- The words before a member, in any order. -/
def memberModifiers (words : List String) : Parser Unit :=
  many (do
    let w ← nextWord
    check (words.contains w)
    if w == "public" || w == "private" || w == "protected" then
      node "accessibility_modifier" (word w)
    else if w == "override" then node "override_modifier" (word w)
    else word w
    no (signIn namedSigns))

/-- An index signature or a mapped type. -/
def indexSignature (r : Rule → Parser Unit) : Parser Unit :=
  node "index_signature" (do
    opt (do opt (signIn ["+", "-"]); word "readonly")
    sign "["
    oneOf [
      node "mapped_type_clause" (do
        field "name" typeName
        word "in"
        field "type" (r .type)
        opt (do word "as"; field "alias" (r .type))),
      (do
        field "name" name
        sign ":"
        field "index_type" (r .type))]
    sign "]"
    field "type" (oneOf [
      node "opting_type_annotation" (do sign "?"; sign ":"; r .type),
      node "omitting_type_annotation" (do sign "-"; sign "?"; sign ":"; r .type),
      node "adding_type_annotation" (do sign "+"; sign "?"; sign ":"; r .type),
      typeNote r]))

/-- The next lexemes are a modifier and not the name of a member. -/
def leadsName (w : String) : Parser Bool := ahead (do
  word w
  no (signIn namedSigns))

/-- A property or a method of an object type. -/
def namedMember (r : Rule → Parser Unit) : Parser Unit :=
  nodeOf (do
    memberModifiers ["public", "private", "protected", "static", "override", "readonly"]
    if ← leadsName "async" then word "async"
    if ← leadsName "get" then word "get"
    if ← leadsName "set" then word "set"
    opt (sign "*")
    field "name" (propertyName r)
    opt (sign "?")
    if ← ahead (signIn ["(", "<"]) then
      r .signature
      return "method_signature"
    opt (field "type" (typeNote r))
    return "property_signature")

/-- A member of an object type. -/
def objectMember (r : Rule → Parser Unit) : Parser Unit := oneOf [
  node "call_signature" (do
    peek (signIn ["(", "<"])
    r .signature),
  node "construct_signature" (do
    opt (word "abstract")
    word "new"
    opt (field "type_parameters" (r .typeParameters))
    field "parameters" (r .parameters)
    opt (field "type" (typeNote r))),
  indexSignature r,
  namedMember r]

/-- An object type. -/
def objectType (r : Rule → Parser Unit) : Parser Unit :=
  node "object_type" (do
    sign openBrace
    opt (signIn [",", ";"])
    many (do objectMember r; memberEnd)
    sign closeBrace)

/-- A function type or a constructor type. -/
def functionType (r : Rule → Parser Unit) : Parser Unit := oneOf [
  node "constructor_type" (do
    opt (word "abstract")
    word "new"
    opt (field "type_parameters" (r .typeParameters))
    field "parameters" (r .parameters)
    sign "=>"
    field "type" (r .type)),
  node "function_type" (do
    opt (field "type_parameters" (r .typeParameters))
    field "parameters" (r .parameters)
    sign "=>"
    field "return_type" (oneOf [assertion r, typePredicate r, r .type]))]

/-- A name behind `typeof`, with its members. -/
def typeQuery (r : Rule → Parser Unit) : Parser Unit :=
  node "type_query" (do
    word "typeof"
    oneOf [
      (do
        node "import" (word "import")
        extend "call_expression" "function" (field "arguments" (r .arguments))),
      node "this" (word "this"),
      name]
    many (oneOf [
      extend "member_expression" "object" (do
        sign "."
        field "property" (privateName <|> node "property_identifier" (freeWord []))),
      extend "subscript_expression" "object" (do
        sameRow
        sign "["
        field "index" (number <|> r .string)
        sign "]")])
    opt (do
      peek (exactly "<")
      extend "instantiation_expression" "function" (field "type_arguments" (r .typeArguments))))

/-- An item of a tuple type. -/
def tupleItem (r : Rule → Parser Unit) : Parser Unit := oneOf [
  node "required_parameter" (do
    field "name" (node "rest_pattern" (do sign "..."; name) <|> name)
    field "type" (typeNote r)),
  node "optional_parameter" (do
    field "name" name
    sign "?"
    field "type" (typeNote r)),
  node "rest_type" (do sign "..."; r .type),
  (do
    r .type
    opt (extend "optional_type" "" (sign "?")))]

/-- A type name with the modules in front of it and the arguments behind it. -/
def namedType (r : Rule → Parser Unit) : Parser Unit := do
  let dotted ← ahead (do freeWord keywords; sign ".")
  if dotted then
    node "nested_type_identifier" (do
      name
      if ← ahead (do sign "."; freeWord []; sign ".") then
        extend "nested_identifier" "object" (do
          sign "."
          field "property" (node "property_identifier" (freeWord [])))
        many (do
          peek (do sign "."; freeWord []; sign ".")
          renamed "member_expression" (Parser.pure ())
          extend "nested_identifier" "object" (do
            sign "."
            field "property" (node "property_identifier" (freeWord []))))
      lastField "module"
      sign "."
      field "name" (node "type_identifier" (freeWord [])))
  else typeName
  opt (do
    peek (exactly "<")
    extend "generic_type" "name" (field "type_arguments" (r .typeArguments)))

/-- A type from a module that is named on the spot. -/
def importedType (r : Rule → Parser Unit) : Parser Unit := do
  node "import" (word "import")
  extend "call_expression" "function" (field "arguments" (r .arguments))
  many (extend "member_expression" "object" (do
    sign "."
    field "property" (node "property_identifier" (freeWord []))))
  opt (do
    peek (exactly "<")
    extend "generic_type" "name" (field "type_arguments" (r .typeArguments)))

/-- A type that no operator splits, without the brackets behind it. -/
def simpleType (r : Rule → Parser Unit) : Parser Unit := do
  match ← nextChar with
  | '(' => node "parenthesized_type" (between "(" ")" (r .type))
  | '{' => r .objectType
  | '[' => node "tuple_type" (do
      sign "["
      sepBy (tupleItem r) comma
      opt comma
      sign "]")
  | '"' | '\'' => node "literal_type" (r .string)
  | '-' => node "literal_type" (node "unary_expression" (do
      sign "-"; field "argument" number))
  | '*' => node "existential_type" (sign "*")
  | _ =>
    let w ← nextWord
    if builtInTypes.contains w then node "predefined_type" (word w)
    else
      match w with
      | "" => oneOf [
          node "literal_type" number,
          template "template_literal_type" (r .type)]
      | "null" | "true" | "false" | "undefined" => node "literal_type" (node w (word w))
      | "this" => node "this_type" (word "this")
      | "const" => word "const"
      | "typeof" => typeQuery r
      | "keyof" => node "index_type_query" (do word "keyof"; r .primaryType) <|> namedType r
      | "unique" => node "predefined_type" (do word "unique"; word "symbol") <|> namedType r
      | "import" => importedType r
      | _ => namedType r

/-- A type with the brackets behind it. -/
def primaryType (r : Rule → Parser Unit) : Parser Unit := do
  simpleType r
  many (do
    sameRow
    peek (sign "[")
    (extend "array_type" "" (do sign "["; sign "]")) <|>
      (extend "lookup_type" "" (do sign "["; r .type; sign "]")))

/-- A type that may stand beside `&` and `|`. -/
def typeOperand (r : Rule → Parser Unit) : Parser Unit := do
  match ← nextWord with
  | "readonly" => node "readonly_type" (do word "readonly"; r .primaryType) <|> r .primaryType
  | "infer" =>
    node "infer_type" (do
      word "infer"
      typeName
      opt (do word "extends"; r .primaryType)) <|> r .primaryType
  | "new" | "abstract" => functionType r <|> r .primaryType
  | _ =>
    if ← ahead (signIn ["(", "<"]) then functionType r <|> r .primaryType
    else r .primaryType

/-- Types joined by one sign; a sign in front of the first is allowed. -/
def joined (kind joint : String) (p : Parser Unit) : Parser Unit := do
  if ← ahead (sign joint) then node kind (do sign joint; p) else p
  many (extend kind "" (do sign joint; p))

/-- A type. -/
def type (r : Rule → Parser Unit) : Parser Unit := do
  joined "union_type" "|" (joined "intersection_type" "&" (typeOperand r))
  opt (extend "conditional_type" "left" (do
    word "extends"
    field "right" (joined "union_type" "|" (joined "intersection_type" "&" (typeOperand r)))
    sign "?"
    field "consequence" (r .type)
    sign ":"
    field "alternative" (r .type)))

end Script
end Syntax
end CodeAtlas

import CodeAtlas.Syntax.Script.Markup

/-!
# Expressions of JavaScript and TypeScript

Operators bind by levels, from `??` at the first to `**` at the twelfth; a sign in front of an
operand binds closer than all of them, and members, calls and the like closer still.
-/

namespace CodeAtlas
namespace Syntax
namespace Script

open CodeAtlas.Syntax.Parser

/-- The parameters of a function and what it returns. -/
def signature (d : Dialect) (r : Rule → Parser Unit) : Parser Unit := do
  if d.typed then
    opt (do
      peek (exactly "<")
      field "type_parameters" (r .typeParameters))
  field "parameters" (r .parameters)
  if d.typed then opt (field "return_type" (resultNote r))

/-- A decorator. -/
def decorator (r : Rule → Parser Unit) : Parser Unit :=
  node "decorator" (do
    sign "@"
    (node "parenthesized_expression" (between "(" ")" (r .expressions))) <|> (do
      name
      many (oneOf [
        extend "member_expression" "object" (do
          sign "."
          field "property" (privateName <|> node "property_identifier" (freeWord []))),
        extend "call_expression" "function" (field "arguments" (r .arguments))])))

/-! ## Patterns -/

/-- A value that is used where nothing else is given. -/
def withDefault (kind : String) (r : Rule → Parser Unit) : Parser Unit :=
  opt (extend kind "left" (do sign "="; field "right" (r .expression)))

/-- A pattern that takes what is left. -/
def restPattern (r : Rule → Parser Unit) : Parser Unit :=
  node "rest_pattern" (do sign "..."; r .pattern)

/-- An item of an object pattern. -/
def objectPatternItem (r : Rule → Parser Unit) : Parser Unit := do
  if ← ahead (sign "...") then restPattern r
  else if ← ahead (do freeWord keywords; no (sign ":")) then
    node "shorthand_property_identifier_pattern" (freeWord keywords)
    withDefault "object_assignment_pattern" r
  else
    node "pair_pattern" (do
      field "key" (propertyName r)
      sign ":"
      field "value" (do r .pattern; withDefault "assignment_pattern" r))

/-- Something that can be assigned to. -/
def pattern (r : Rule → Parser Unit) : Parser Unit := do
  match ← nextChar with
  | '[' =>
    node "array_pattern" (do
      sign "["
      many (comma <|> (do
        restPattern r <|> r .pattern
        withDefault "assignment_pattern" r))
      sign "]")
  | '{' =>
    node "object_pattern" (do
      sign openBrace
      sepBy (objectPatternItem r) comma
      opt comma
      sign closeBrace)
  | _ =>
    node "this" (word "this") <|> node "super" (word "super") <|> reference
    many (oneOf [
      extend "member_expression" "object" (do
        sign "."
        field "property" (privateName <|> node "property_identifier" (freeWord []))),
      extend "subscript_expression" "object" (do
        sign "["
        field "index" (r .expressions)
        sign "]")])

/-- A parameter without annotations. -/
def plainParameter (r : Rule → Parser Unit) : Parser Unit := do
  many (field "decorator" (decorator r))
  restPattern r <|> r .pattern
  withDefault "assignment_pattern" r

/-- A parameter with its annotations. -/
def typedParameter (r : Rule → Parser Unit) : Parser Unit :=
  nodeOf (do
    many (field "decorator" (decorator r))
    memberModifiers ["public", "private", "protected", "override", "readonly"]
    field "pattern" (restPattern r <|> r .pattern)
    let optional ← found (sign "?")
    opt (field "type" (typeNote r))
    opt (do sign "="; field "value" (r .expression))
    return if optional then "optional_parameter" else "required_parameter")

/-- The parameters of a function. -/
def parameters (d : Dialect) (r : Rule → Parser Unit) : Parser Unit :=
  node "formal_parameters" (do
    sign "("
    sepBy (if d.typed then typedParameter r else plainParameter r) comma
    opt comma
    sign ")")

/-! ## Functions and classes -/

/-- A function without a name of its own in the block around it. -/
def functionExpression (r : Rule → Parser Unit) : Parser Unit :=
  nodeOf (do
    opt (word "async")
    word "function"
    let generator ← found (sign "*")
    opt (field "name" name)
    r .signature
    field "body" (r .block)
    return if generator then "generator_function" else "function_expression")

/-- An arrow function. -/
def arrow (r : Rule → Parser Unit) : Parser Unit :=
  node "arrow_function" (do
    (do
      peek (do freeWord keywords; sign "=>")
      field "parameter" name) <|> r .signature
    sameRow
    sign "=>"
    field "body" (r .block <|> r .expression))

/-- An arrow function that runs aside. -/
def asyncArrow (r : Rule → Parser Unit) : Parser Unit :=
  node "arrow_function" (do
    word "async"
    sameRow
    field "parameter" (do name; peek (sign "=>")) <|> r .signature
    sameRow
    sign "=>"
    field "body" (r .block <|> r .expression))

/-- What a class builds on. -/
def heritage (d : Dialect) (r : Rule → Parser Unit) : Parser Unit := do
  if d.typed then
    if ← ahead (wordIn ["extends", "implements"]) then
      node "class_heritage" (do
        opt (node "extends_clause" (do
          word "extends"
          sepBy1 (do
            field "value" (r (.operand 14))
            opt (do
              peek (exactly "<")
              field "type_arguments" (r .typeArguments))) comma))
        opt (node "implements_clause" (do
          word "implements"
          sepBy1 (r .type) comma)))
  else opt (node "class_heritage" (do word "extends"; r (.operand 14)))

/-- The name of a class. -/
def className (d : Dialect) : Parser Unit :=
  field "name" (node (if d.typed then "type_identifier" else "identifier")
    (freeWord ("implements" :: keywords)))

/-- What follows the name of a class. -/
def classRest (d : Dialect) (r : Rule → Parser Unit) : Parser Unit := do
  if d.typed then
    opt (do
      peek (exactly "<")
      field "type_parameters" (r .typeParameters))
  heritage d r
  field "body" (r .classBody)

/-- A class without a name of its own in the block around it. -/
def classExpression (d : Dialect) (r : Rule → Parser Unit) : Parser Unit :=
  node "class" (do
    many (field "decorator" (decorator r))
    word "class"
    opt (className d)
    classRest d r)

/-! ## Objects and arrays -/

/-- An expression, or one that is spread out. -/
def spreadOr (r : Rule → Parser Unit) : Parser Unit :=
  (do
    peek (sign "...")
    node "spread_element" (do sign "..."; r .expression)) <|> r .expression

/-- A member of an object. -/
def objectItem (r : Rule → Parser Unit) : Parser Unit := do
  if ← ahead (sign "...") then node "spread_element" (do sign "..."; r .expression)
  else if ← ahead (do freeWord keywords; signIn [",", closeBrace]) then
    node "shorthand_property_identifier" (freeWord keywords)
  else if ← ahead (do freeWord keywords; sign "=") then
    node "object_assignment_pattern" (do
      field "left" (node "shorthand_property_identifier_pattern" (freeWord keywords))
      sign "="
      field "right" (r .expression))
  else
    nodeOf (do
      if ← leadsName "async" then word "async"
      opt (sign "*")
      if ← leadsName "get" then word "get"
      if ← leadsName "set" then word "set"
      propertyName r
      if ← found (sign ":") then
        let kind := "pair"
        lastField "key"
        field "value" (r .expression)
        return kind
      lastField "name"
      r .signature
      field "body" (r .block)
      return "method_definition")

/-- An object. -/
def object (r : Rule → Parser Unit) : Parser Unit :=
  node "object" (do
    sign openBrace
    sepBy (objectItem r) comma
    opt comma
    sign closeBrace)

/-- An array. -/
def array (r : Rule → Parser Unit) : Parser Unit :=
  node "array" (do
    sign "["
    many (comma <|> spreadOr r)
    sign "]")

/-- The arguments of a call. -/
def arguments (r : Rule → Parser Unit) : Parser Unit :=
  node "arguments" (do
    sign "("
    sepBy (spreadOr r) comma
    opt comma
    sign ")")

/-! ## Operands -/

/-- An expression in parentheses. -/
def parenthesized (d : Dialect) (r : Rule → Parser Unit) : Parser Unit :=
  node "parenthesized_expression" (do
    sign "("
    r .expressions
    if d.typed then opt (field "type" (typeNote r))
    sign ")")

/-- The making of an object. -/
def newExpression (d : Dialect) (r : Rule → Parser Unit) : Parser Unit :=
  (do
    peek (do word "new"; sign ".")
    node "meta_property" (do word "new"; sign "."; word "target")) <|>
  node "new_expression" (do
    word "new"
    field "constructor" (r .constructor)
    if d.typed then
      opt (do
        peek (exactly "<")
        field "type_arguments" (r .typeArguments))
    opt (field "arguments" (r .arguments)))

/-- An operand that starts with a word. -/
def wordOperand (d : Dialect) (r : Rule → Parser Unit) (w : String) : Parser Unit := do
  match w with
  | "function" => functionExpression r
  | "class" => classExpression d r
  | "new" => newExpression d r
  | "this" => node "this" (word "this")
  | "super" => node "super" (word "super")
  | "null" => node "null" (word "null")
  | "true" => node "true" (word "true")
  | "false" => node "false" (word "false")
  | "import" =>
    (node "meta_property" (do word "import"; sign "."; word "meta")) <|>
      node "import" (word "import")
  | "async" =>
    oneOf [
      (do
        peek (do word "async"; sameRow; word "function")
        functionExpression r),
      (do
        peek (do word "async"; sameRow; freeWord keywords; sign "=>")
        asyncArrow r),
      (do
        peek (do word "async"; sameRow; signIn ["(", "<"])
        asyncArrow r),
      (do
        peek (do word "async"; sign "=>")
        arrow r),
      name]
  | _ =>
    if ← ahead (do freeWord keywords; sign "=>") then arrow r else reference

/-- An operand without anything behind it. -/
def atom (d : Dialect) (r : Rule → Parser Unit) : Parser Unit := do
  let w ← nextWord
  if w != "" then wordOperand d r w
  else
    match ← nextChar with
    | '(' => arrow r <|> parenthesized d r
    | '[' => array r
    | '{' => object r
    | '"' | '\'' => r .string
    | '/' => regex
    | '#' => privateName
    | '@' => classExpression d r
    | '<' =>
      if d.typed then
        if d.markup then arrow r <|> r .element
        else
          arrow r <|> node "type_assertion" (do
            r .typeArguments
            r (.operand 13))
      else
        check d.markup
        r .element
    | _ => oneOf [number, r .template]

/-- A member or a subscript behind an expression. -/
def memberTrailer (r : Rule → Parser Unit) : Parser Unit := oneOf [
  extend "member_expression" "object" (do
    sign "."
    field "property" (privateName <|> node "property_identifier" (freeWord []))),
  extend "subscript_expression" "object" (do
    sign "["
    field "index" (r .expressions)
    sign "]")]

/-- What may follow the mark of an optional member. -/
def optionalTrailer (r : Rule → Parser Unit) : Parser Unit := do
  let mark := field "optional_chain" (node "optional_chain" (sign "?."))
  peek (sign "?.")
  oneOf [
    extend "call_expression" "function" (do
      mark
      field "arguments" (r .arguments)),
    extend "subscript_expression" "object" (do
      mark
      sign "["
      field "index" (r .expressions)
      sign "]"),
    extend "member_expression" "object" (do
      mark
      field "property" (privateName <|> node "property_identifier" (freeWord [])))]

/-- Members, calls and the like behind an expression. -/
def trailer (d : Dialect) (r : Rule → Parser Unit) : Parser Unit := do
  match ← nextSign with
  | "." | "[" => memberTrailer r
  | "(" => extend "call_expression" "function" (field "arguments" (r .arguments))
  | "?." => optionalTrailer r
  | "!" =>
    check d.typed
    sameRow
    extend "non_null_expression" "" (sign "!")
  | "<" | "<<" =>
    check d.typed
    extend "call_expression" "function" (do
      field "type_arguments" (r .typeArguments)
      field "arguments" (r .arguments <|> r .template)) <|>
    extend "instantiation_expression" "" (do
      field "type_arguments" (r .typeArguments)
      check (← atEnd <||> rowEnds <||> ahead (signIn [";", ",", ")", "]", closeBrace])))
  | _ =>
    check ((← nextChar) == backQuote)
    extend "call_expression" "function" (field "arguments" (r .template))

/-- An operand with everything that follows it. -/
def primary (d : Dialect) (r : Rule → Parser Unit) : Parser Unit := do
  atom d r
  many (trailer d r)

/-- What is made by `new`. -/
def constructed (d : Dialect) (r : Rule → Parser Unit) : Parser Unit := do
  atom d r
  many (memberTrailer r)

/-- An operand with the signs before and behind it. -/
def signed (d : Dialect) (r : Rule → Parser Unit) : Parser Unit := do
  match ← nextWord with
  | "typeof" | "void" | "delete" =>
    let w ← nextWord
    node "unary_expression" (do word w; field "argument" (r (.operand 13)))
  | "await" =>
    node "await_expression" (do word "await"; r (.operand 13)) <|> primary d r
  | _ =>
    match ← nextSign with
    | "!" | "~" | "+" | "-" =>
      let s ← nextSign
      node "unary_expression" (do sign s; field "argument" (r (.operand 13)))
    | "++" | "--" =>
      let s ← nextSign
      node "update_expression" (do sign s; field "argument" (r (.operand 13)))
    | _ =>
      primary d r
      opt (do
        sameRow
        extend "update_expression" "argument" (signIn ["++", "--"]))

/-- How closely a sign between two operands binds. -/
def binaryLevel (operator : String) : Nat :=
  match operator with
  | "??" => 1
  | "||" => 2
  | "&&" => 3
  | "|" => 4
  | "^" => 5
  | "&" => 6
  | "==" | "!=" | "===" | "!==" => 7
  | "<" | "<=" | ">" | ">=" => 8
  | "<<" | ">>" | ">>>" => 9
  | "+" | "-" => 10
  | "*" | "/" | "%" => 11
  | "**" => 12
  | _ => 0

/-- One more operator of at least the given level behind an operand. -/
def operatorStep (d : Dialect) (r : Rule → Parser Unit) (level : Nat) : Parser Unit := do
  let operator ← nextSign
  let n := binaryLevel operator
  if n != 0 then
    check (level ≤ n)
    extend "binary_expression" "left" (do
      sign operator
      field "right" (r (.operand (if n == 12 then 12 else n + 1))))
  else
    check (level ≤ 8)
    match ← nextWord with
    | "in" | "instanceof" =>
      let w ← nextWord
      extend "binary_expression" "left" (do word w; field "right" (r (.operand 9)))
    | "as" =>
      check d.typed
      sameRow
      extend "as_expression" "" (do word "as"; r .type)
    | "satisfies" =>
      check d.typed
      sameRow
      extend "satisfies_expression" "" (do word "satisfies"; r .type)
    | _ => fail

/-- An operand with all operators of at least the given level. -/
def operand (d : Dialect) (r : Rule → Parser Unit) (level : Nat) : Parser Unit := do
  if 14 ≤ level then primary d r
  else
    signed d r
    if level ≤ 12 then many (operatorStep d r level)

/-- The signs that change a variable by an operation. -/
def augmentedSigns : List String :=
  ["+=", "-=", "*=", "/=", "%=", "^=", "&=", "|=", ">>=", ">>>=", "<<=", "**=", "&&=", "||=",
    "??="]

/-- The kinds of nodes that can be assigned to. -/
def assignable : List String :=
  ["identifier", "member_expression", "subscript_expression", "undefined",
    "parenthesized_expression", "non_null_expression"]

/-- The choice between two expressions.  What looks like a function with the type of its result
may in fact be an expression in parentheses. -/
def choice (d : Dialect) (r : Rule → Parser Unit) : Parser Unit := do
  let otherwise := do
    sign ":"
    field "alternative" (r .expression)
  let grouped := do
    node "parenthesized_expression" (between "(" ")" (r .expressions))
    many (trailer d r)
  sign "?"
  (do field "consequence" (r .expression); otherwise) <|>
    (do field "consequence" grouped; otherwise)

/-- What follows an operand in an expression. -/
def expressionRest (d : Dialect) (r : Rule → Parser Unit) : Parser Unit := do
  match ← nextSign with
  | "?" => extend "ternary_expression" "condition" (choice d r)
  | "=" =>
    check (assignable.contains (← lastKind))
    extend "assignment_expression" "left" (do sign "="; field "right" (r .expression))
  | s =>
    check (augmentedSigns.contains s && assignable.contains (← lastKind))
    extend "augmented_assignment_expression" "left" (do sign s; field "right" (r .expression))

/-- An expression without commas. -/
def expression (d : Dialect) (r : Rule → Parser Unit) : Parser Unit := do
  let plain := do
    operand d r 1
    opt (expressionRest d r)
  if (← nextWord) == "yield" then
    node "yield_expression" (do
      word "yield"
      opt ((do sign "*"; r .expression) <|> (do sameRow; r .expression)))
  else
    match ← nextChar with
    | '[' | '{' =>
      node "assignment_expression" (do
        field "left" (r .pattern)
        sign "="
        field "right" (r .expression)) <|> plain
    | _ => plain

/-- An expression, or several that are joined by commas. -/
def expressions (r : Rule → Parser Unit) : Parser Unit := do
  r .expression
  if ← ahead comma then
    extend "sequence_expression" "" (many (do comma; r .expression))

end Script
end Syntax
end CodeAtlas

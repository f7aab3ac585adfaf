import CodeAtlas.Syntax.Php.Expression

/-!
# PHP

Statements and declarations of PHP.  A statement ends with a semicolon or before a closing tag.
Text in front of the first opening tag is kept as one node.
-/

namespace CodeAtlas
namespace Syntax
namespace Php

open CodeAtlas.Syntax.Parser

/-- A closing tag stands behind the blanks and comments that follow. -/
def closesTag (e : Env) : Nat → Nat → Bool
  | 0, _ => false
  | fuel + 1, i =>
    match e.source.get? i with
    | none => false
    | some c =>
      if e.lexis.isBlank c then closesTag e fuel (i + 1)
      else
        match comment? e.source i with
        | some (kind, j) => kind == "text_interpolation" || (i < j && closesTag e fuel j)
        | none => false

/-- The end of a statement. -/
def semicolon : Parser Unit := do
  let e ← env
  let i ← position
  if closesTag e e.source.size i then return
  if ← atEnd then return
  sign ";"

/-- Attributes in front of a declaration. -/
def attributes (r : Rule → Parser Unit) : Parser Unit :=
  node "attribute_list" (many1 (node "attribute_group" (do
    exactly "#["
    sepBy1 (node "attribute" (do
      qualifiedName
      opt (field "parameters" (r .arguments)))) comma
    opt comma
    sign "]")))

/-! ## Classes -/

/-- One modifier of a member or a class. -/
def modifier : Parser Unit := oneOf [
  node "visibility_modifier" (do
    keywordIn ["public", "protected", "private"]
    opt (between "(" ")" (keyword "set"))),
  node "static_modifier" (keyword "static"),
  node "final_modifier" (keyword "final"),
  node "abstract_modifier" (keyword "abstract"),
  node "readonly_modifier" (keyword "readonly"),
  node "var_modifier" (keyword "var")]

/-- What a class builds on. -/
def baseClause : Parser Unit :=
  opt (node "base_clause" (do keyword "extends"; sepBy1 qualifiedName comma))

/-- The interfaces of a class. -/
def interfaceClause : Parser Unit :=
  opt (node "class_interface_clause" (do keyword "implements"; sepBy1 qualifiedName comma))

/-- The constants of a class or a file. -/
def constants (r : Rule → Parser Unit) : Parser Unit := do
  keyword "const"
  opt (do
    peek (do r .type; freeWord [])
    field "type" (r .type))
  sepBy1 (node "const_element" (do
    anyName
    sign "="
    r .expression)) comma
  semicolon

/-- The name, the parameters and the result of a function. -/
def functionHead (r : Rule → Parser Unit) (named : Parser Unit) : Parser Unit := do
  keyword "function"
  opt (field "reference_modifier" (node "reference_modifier" (sign "&")))
  field "name" named
  field "parameters" (r .parameters)
  returnType r

/-- The traits that a class takes in. -/
def traitUse : Parser Unit :=
  node "use_declaration" (do
    keyword "use"
    sepBy1 qualifiedName comma
    (node "use_list" (do
      sign openBrace
      many (node "use_instead_of_clause" (do
        rule
        keyword "insteadof"
        sepBy1 qualifiedName comma
        sign ";") <|> node "use_as_clause" (do
        rule
        keyword "as"
        opt modifier
        opt anyName
        sign ";"))
      sign closeBrace)) <|> semicolon)
where
  /-- A method of a trait. -/
  rule : Parser Unit := do
    qualifiedName
    opt (extend "class_constant_access_expression" "" (do sign "::"; anyName))

/-- A member of a class. -/
def member (r : Rule → Parser Unit) : Parser Unit := do
  if (← nextKeyword) == "use" then traitUse
  else if (← nextKeyword) == "case" then
    node "enum_case" (do
      keyword "case"
      field "name" anyName
      opt (do sign "="; field "value" (r .expression))
      semicolon)
  else
    nodeOf (do
      opt (field "attributes" (r .attributes))
      many modifier
      match ← nextKeyword with
      | "function" =>
        functionHead r anyName
        field "body" (r .compound) <|> semicolon
        return "method_declaration"
      | "const" =>
        constants r
        return "const_declaration"
      | _ =>
        opt (field "type" (r .type))
        sepBy1 (node "property_element" (do
          field "name" variableName
          opt (do sign "="; field "default_value" (r .expression)))) comma
        hooks <|> semicolon
        return "property_declaration")
where
  /-- The code that runs when a property is read or set. -/
  hooks : Parser Unit := node "property_hook_list" (do
    sign openBrace
    many (node "property_hook" (do
      opt (field "attributes" (r .attributes))
      many modifier
      opt (sign "&")
      anyName
      opt (field "parameters" (r .parameters))
      oneOf [
        (do sign "=>"; field "body" (r .expression); sign ";"),
        field "body" (r .compound),
        sign ";"]))
    sign closeBrace)

/-- The members of a class. -/
def members (r : Rule → Parser Unit) : Parser Unit :=
  node "declaration_list" (do
    sign openBrace
    many (member r)
    sign closeBrace)

/-- A class, an interface, a trait or an enumeration. -/
def typeDeclaration (r : Rule → Parser Unit) : Parser Unit :=
  nodeOf (do
    opt (field "attributes" (r .attributes))
    many modifier
    let w ← nextKeyword
    keywordIn ["class", "interface", "trait", "enum"]
    field "name" anyName
    match w with
    | "interface" =>
      baseClause
      field "body" (r .members)
      return "interface_declaration"
    | "trait" =>
      field "body" (r .members)
      return "trait_declaration"
    | "enum" =>
      opt (do sign ":"; r .type)
      interfaceClause
      field "body" (renamed "enum_declaration_list" (r .members))
      return "enum_declaration"
    | _ =>
      baseClause
      interfaceClause
      field "body" (r .members)
      return "class_declaration")

/-- A function. -/
def functionDefinition (r : Rule → Parser Unit) : Parser Unit :=
  node "function_definition" (do
    opt (field "attributes" (r .attributes))
    functionHead r anyName
    field "body" (r .compound))

/-! ## Namespaces -/

/-- The name of a namespace. -/
def namespaceName : Parser Unit :=
  node "namespace_name" (do
    anyName
    many (do sign "\\"; anyName))

/-- A namespace, with or without braces. -/
def namespaceDefinition (r : Rule → Parser Unit) : Parser Unit :=
  node "namespace_definition" (do
    keyword "namespace"
    opt (field "name" namespaceName)
    field "body" (r .compound) <|> semicolon)

/-- One name that is taken from a namespace. -/
def useClause : Parser Unit :=
  node "namespace_use_clause" (do
    opt (do keywordIn ["function", "const"]; peek (freeWord [] <|> sign "\\"))
    qualifiedName <|> anyName
    opt (do keyword "as"; field "alias" anyName))

/-- Names that are taken from namespaces. -/
def useDeclaration : Parser Unit :=
  node "namespace_use_declaration" (do
    keyword "use"
    (do
      opt (keywordIn ["function", "const"])
      opt (sign "\\")
      groupName
      sign "\\"
      field "body" (node "namespace_use_group" (do
        sign openBrace
        sepBy1 useClause comma
        opt comma
        sign closeBrace))) <|> sepBy1 useClause comma
    semicolon)
where
  /-- The namespace in front of a group of names. -/
  groupName : Parser Unit := node "namespace_name" (do
    anyName
    many (do sign "\\"; anyName))

/-! ## Statements -/

/-- A condition in parentheses. -/
def condition (r : Rule → Parser Unit) : Parser Unit :=
  node "parenthesized_expression" (between "(" ")" (r .expression))

/-- Statements between braces. -/
def compound (r : Rule → Parser Unit) : Parser Unit :=
  node "compound_statement" (do
    sign openBrace
    many (r .statement)
    sign closeBrace)

/-- Statements between a colon and one of some words. -/
def colonBlock (r : Rule → Parser Unit) (ends : List String) : Parser Unit :=
  node "colon_block" (do
    sign ":"
    many (do
      no (keywordIn ends)
      r .statement))

/-- The body of a loop, with a colon and a closing word or as a statement. -/
def loopBody (r : Rule → Parser Unit) (closing : String) : Parser Unit :=
  (do
    field "body" (colonBlock r [closing])
    keyword closing
    semicolon) <|> field "body" (r .statement)

/-- A choice between statements. -/
def ifStatement (r : Rule → Parser Unit) : Parser Unit :=
  node "if_statement" (do
    keyword "if"
    field "condition" (condition r)
    if ← ahead (sign ":") then
      let ends := ["elseif", "else", "endif"]
      field "body" (colonBlock r ends)
      many (field "alternative" (node "else_if_clause" (do
        keyword "elseif"
        field "condition" (condition r)
        field "body" (colonBlock r ends))))
      opt (field "alternative" (node "else_clause" (do
        keyword "else"
        field "body" (colonBlock r ends))))
      keyword "endif"
      semicolon
    else
      field "body" (r .statement)
      many (field "alternative" (node "else_if_clause" (do
        keyword "elseif" <|> (do
          peek (do keyword "else"; keyword "if")
          keyword "else"
          keyword "if")
        field "condition" (condition r)
        field "body" (r .statement))))
      opt (field "alternative" (node "else_clause" (do
        keyword "else"
        field "body" (r .statement)))))

/-- A choice between values. -/
def switchStatement (r : Rule → Parser Unit) : Parser Unit := do
  let ends := ["case", "default", "endswitch"]
  let rest := do
    sign ":" <|> sign ";"
    many (do
      no (keywordIn ends)
      r .statement)
  let items := many (oneOf [
    node "case_statement" (do
      keyword "case"
      field "value" (r .expression)
      rest),
    node "default_statement" (do
      keyword "default"
      rest)])
  node "switch_statement" (do
    keyword "switch"
    field "condition" (condition r)
    field "body" (node "switch_block" (oneOf [
      (do sign openBrace; items; sign closeBrace),
      (do sign ":"; items; keyword "endswitch"; semicolon)])))

/-- A loop over the elements of an array. -/
def foreachStatement (r : Rule → Parser Unit) : Parser Unit := do
  let target := node "by_ref" (do sign "&"; r .expression) <|> listLiteral r 64 <|> r .expression
  node "foreach_statement" (do
    keyword "foreach"
    sign "("
    r .expression
    keyword "as"
    node "pair" (do target; sign "=>"; target) <|> target
    sign ")"
    loopBody r "endforeach")

/-- A loop with a counter. -/
def forStatement (r : Rule → Parser Unit) : Parser Unit :=
  node "for_statement" (do
    keyword "for"
    sign "("
    opt (field "initialize" (sepBy1 (r .expression) comma))
    sign ";"
    opt (field "condition" (sepBy1 (r .expression) comma))
    sign ";"
    opt (field "update" (sepBy1 (r .expression) comma))
    sign ")"
    loopBody r "endfor")

/-- A block with the handlers of its exceptions. -/
def tryStatement (r : Rule → Parser Unit) : Parser Unit :=
  node "try_statement" (do
    keyword "try"
    field "body" (r .compound)
    many (node "catch_clause" (do
      keyword "catch"
      sign "("
      field "type" (node "type_list" (sepBy1 (node "named_type" qualifiedName) (sign "|")))
      opt (field "name" variableName)
      sign ")"
      field "body" (r .compound)))
    opt (node "finally_clause" (do
      keyword "finally"
      field "body" (r .compound))))

/-- A statement made of an expression. -/
def expressionStatement (r : Rule → Parser Unit) : Parser Unit :=
  node "expression_statement" (do r .expression; semicolon)

/-- A statement that starts with a word. -/
def wordStatement (r : Rule → Parser Unit) (w : String) : Parser Unit := do
  let leaving (kind : String) : Parser Unit := node kind (do
    keyword w
    opt (r .expression)
    semicolon)
  match w with
  | "if" => ifStatement r
  | "switch" => switchStatement r
  | "while" => node "while_statement" (do
      keyword "while"
      field "condition" (condition r)
      loopBody r "endwhile")
  | "do" => node "do_statement" (do
      keyword "do"
      field "body" (r .statement)
      keyword "while"
      field "condition" (condition r)
      semicolon)
  | "for" => forStatement r
  | "foreach" => foreachStatement r
  | "try" => tryStatement r
  | "break" => leaving "break_statement"
  | "continue" => leaving "continue_statement"
  | "return" => leaving "return_statement"
  | "goto" => node "goto_statement" (do keyword "goto"; anyName; semicolon)
  | "echo" => node "echo_statement" (do
      keyword "echo"
      sepBy1 (r .expression) comma
      semicolon)
  | "exit" => node "exit_statement" (do
      keyword "exit"
      opt (do sign "("; opt (r .expression); sign ")")
      semicolon) <|> expressionStatement r
  | "unset" => node "unset_statement" (do
      keyword "unset"
      sign "("
      sepBy1 (r .variable) comma
      opt comma
      sign ")"
      semicolon)
  | "declare" => node "declare_statement" (do
      keyword "declare"
      sign "("
      node "declare_directive" (do freeWord []; sign "="; r .expression)
      sign ")"
      semicolon <|> r .statement)
  | "const" => node "const_declaration" (constants r)
  | "global" => node "global_declaration" (do
      keyword "global"
      sepBy1 (variableName <|> dynamicVariable r) comma
      semicolon)
  | "static" =>
    node "function_static_declaration" (do
      keyword "static"
      sepBy1 (node "static_variable_declaration" (do
        field "name" variableName
        opt (do sign "="; field "value" (r .expression)))) comma
      semicolon) <|> expressionStatement r
  | "namespace" => namespaceDefinition r <|> expressionStatement r
  | "use" => useDeclaration
  | "function" => functionDefinition r <|> expressionStatement r
  | "class" | "interface" | "trait" | "abstract" | "final" => typeDeclaration r
  | "enum" | "readonly" => typeDeclaration r <|> expressionStatement r
  | _ =>
    if ← ahead (do freeName; sign ":") then
      node "named_label_statement" (do name; sign ":")
    else expressionStatement r

/-- A statement. -/
def statement (r : Rule → Parser Unit) : Parser Unit := do
  match ← nextChar with
  | '{' => r .compound
  | ';' => node "empty_statement" (sign ";")
  | '#' => oneOf [typeDeclaration r, functionDefinition r, expressionStatement r]
  | _ =>
    let w ← nextKeyword
    if w == "" then expressionStatement r else wordStatement r w

/-! ## The grammar -/

/-- The productions of PHP. -/
def grammar : Grammar Rule := fun r rule =>
  match rule with
  | .statement => statement r
  | .compound => compound r
  | .expression => r (.operand 1)
  | .operand level => operand r level
  | .variable => primary r
  | .arguments => arguments r
  | .parameters => parameters r
  | .type => type r
  | .attributes => attributes r
  | .members => members r

/-- The text in front of the first opening tag, and that tag. -/
def opening : Parser Unit := do
  let s ← source
  match s.findFrom ['<', '?'] (s.size + 1) 0 with
  | none => if 0 < s.size then piece "text" 0 s.size
  | some i =>
    if 0 < i then piece "text" 0 i
    piece "php_tag" i (tagEnd s i)

/-- A whole file. -/
def program (fuel : Nat) : Parser Unit :=
  node "program" (do
    opening
    many (grammar.run fuel .statement))

/-- The tree of a PHP text, or the furthest place at which it does not fit the grammar. -/
def parse (source : Source) (repair : Repair) : Except Nat Tree :=
  parseWhole lexis source repair false (program (16 * source.size + 64))

end Php
end Syntax
end CodeAtlas

import CodeAtlas.Syntax.Script.Expression

/-!
# Statements of JavaScript and TypeScript

Declarations, imports and exports, control flow, and the bodies of classes.
-/

namespace CodeAtlas
namespace Syntax
namespace Script

open CodeAtlas.Syntax.Parser

/-- Statements between braces. -/
def block (r : Rule → Parser Unit) : Parser Unit :=
  node "statement_block" (do
    sign openBrace
    many (r .statement)
    sign closeBrace)

/-! ## Classes -/

/-- What follows the modifiers of a member with a body or a signature. -/
def methodHead (r : Rule → Parser Unit) : Parser Unit := do
  if ← leadsName "async" then word "async"
  if ← leadsName "get" then word "get"
  if ← leadsName "set" then word "set"
  opt (sign "*")
  field "name" (propertyName r)

/-- A block that runs when the class is made. -/
def staticBlock (r : Rule → Parser Unit) : Parser Unit := do
  peek (do word "static"; sign openBrace)
  node "class_static_block" (do word "static"; field "body" (r .block))

/-- A member of a class without annotations. -/
def plainMember (r : Rule → Parser Unit) : Parser Unit := do
  staticBlock r <|> nodeOf (do
    many (field "decorator" (decorator r))
    if ← leadsName "static" then word "static"
    if ← leadsName "accessor" then word "accessor"
    methodHead r
    if ← ahead (sign "(") then
      r .signature
      field "body" (r .block)
      return "method_definition"
    lastField "property"
    opt (do sign "="; field "value" (r .expression))
    semicolon
    return "field_definition")

/-- A method of a class with annotations, or the signature of one. -/
def typedMethod (r : Rule → Parser Unit) : Parser Unit :=
  nodeOf (do
    memberModifiers ["public", "private", "protected", "static", "override", "readonly"]
    let abstract ← leadsName "abstract"
    if abstract then word "abstract"
    memberModifiers ["public", "private", "protected", "static", "override", "readonly"]
    methodHead r
    opt (sign "?")
    peek (signIn ["(", "<"])
    r .signature
    if abstract then return "abstract_method_signature"
    if ← ahead (sign openBrace) then
      field "body" (r .block)
      return "method_definition"
    return "method_signature")

/-- A field of a class with annotations. -/
def typedField (r : Rule → Parser Unit) : Parser Unit := do
  node "public_field_definition" (do
    many (field "decorator" (decorator r))
    memberModifiers ["declare", "public", "private", "protected", "static", "override", "readonly",
      "abstract", "accessor"]
    field "name" (propertyName r)
    opt (signIn ["?", "!"])
    opt (field "type" (typeNote r))
    opt (do sign "="; field "value" (r .expression)))
  comma <|> semicolon

/-- A member of a class with annotations. -/
def typedMember (r : Rule → Parser Unit) : Parser Unit := oneOf [
  staticBlock r,
  (do
    many (field "decorator" (decorator r))
    typedMethod r),
  indexSignature r,
  typedField r]

/-- The body of a class. -/
def classBody (d : Dialect) (r : Rule → Parser Unit) : Parser Unit :=
  node "class_body" (do
    sign openBrace
    many (signIn [";", ","] <|> (if d.typed then typedMember r else plainMember r))
    sign closeBrace)

/-! ## Declarations -/

/-- A function with a name, or the signature of one. -/
def functionDeclaration (d : Dialect) (r : Rule → Parser Unit) : Parser Unit :=
  nodeOf (do
    opt (do word "async"; sameRow)
    word "function"
    let generator ← found (sign "*")
    field "name" name
    r .signature
    if d.typed && !(← ahead (sign openBrace)) then
      semicolon
      return "function_signature"
    field "body" (r .block)
    return if generator then "generator_function_declaration" else "function_declaration")

/-- A class with a name. -/
def classDeclaration (d : Dialect) (r : Rule → Parser Unit) : Parser Unit :=
  nodeOf (do
    many (field "decorator" (decorator r))
    let abstract ← if d.typed then found (word "abstract") else pure false
    word "class"
    className d
    classRest d r
    return if abstract then "abstract_class_declaration" else "class_declaration")

/-- A variable with its value. -/
def declarator (d : Dialect) (r : Rule → Parser Unit) : Parser Unit :=
  node "variable_declarator" (do
    field "name" (do
      if ← ahead (signIn ["[", openBrace]) then r .pattern else name)
    if d.typed then
      opt (do
        opt (sign "!")
        field "type" (typeNote r))
    opt (do sign "="; field "value" (r .expression)))

/-- Variables of a block. -/
def lexicalDeclaration (d : Dialect) (r : Rule → Parser Unit) : Parser Unit :=
  node "lexical_declaration" (do
    wordIn ["let", "const"]
    sepBy1 (declarator d r) comma
    semicolon)

/-- Variables of a function. -/
def variableDeclaration (d : Dialect) (r : Rule → Parser Unit) : Parser Unit :=
  node "variable_declaration" (do
    word "var"
    sepBy1 (declarator d r) comma
    semicolon)

/-- An enumeration. -/
def enumDeclaration (r : Rule → Parser Unit) : Parser Unit :=
  node "enum_declaration" (do
    opt (word "const")
    word "enum"
    field "name" name
    field "body" (node "enum_body" (do
      sign openBrace
      sepBy (do
        field "name" (propertyName r)
        opt (extend "enum_assignment" "name" (do
          sign "="
          field "value" (r .expression)))) comma
      opt comma
      sign closeBrace)))

/-- An interface. -/
def interfaceDeclaration (r : Rule → Parser Unit) : Parser Unit :=
  node "interface_declaration" (do
    word "interface"
    field "name" typeName
    opt (do
      peek (exactly "<")
      field "type_parameters" (r .typeParameters))
    opt (node "extends_type_clause" (do
      word "extends"
      sepBy1 (field "type" (namedType r)) comma))
    field "body" (renamed "interface_body" (r .objectType)))

/-- Another name for a type. -/
def typeAlias (r : Rule → Parser Unit) : Parser Unit :=
  node "type_alias_declaration" (do
    word "type"
    field "name" typeName
    opt (do
      peek (exactly "<")
      field "type_parameters" (r .typeParameters))
    sign "="
    field "value" (r .type)
    semicolon)

/-- Names joined by dots. -/
def dottedName : Parser Unit := do
  name
  many (do
    renamed "member_expression" (Parser.pure ()) <|> Parser.pure ()
    extend "nested_identifier" "object" (do
      sign "."
      field "property" (node "property_identifier" (freeWord []))))

/-- The name and the body of a module. -/
def moduleRest (r : Rule → Parser Unit) : Parser Unit := do
  field "name" (r .string <|> qualifiedName)
  opt (field "body" (r .block))
where
  /-- A name with the names in front of it. -/
  qualifiedName : Parser Unit := do
    name
    many (extend "nested_identifier" "object" (do
      sign "."
      field "property" (node "property_identifier" (freeWord []))))

/-- A module inside a file. -/
def moduleDeclaration (r : Rule → Parser Unit) : Parser Unit := do
  match ← nextWord with
  | "namespace" => node "internal_module" (do word "namespace"; sameRow; moduleRest r)
  | _ => node "module" (do word "module"; sameRow; moduleRest r)

/-- A name for a name in a module. -/
def importAlias (_r : Rule → Parser Unit) : Parser Unit :=
  node "import_alias" (do
    word "import"
    name
    sign "="
    name
    many (extend "nested_identifier" "object" (do
      sign "."
      field "property" (node "property_identifier" (freeWord []))))
    semicolon)

/-- A declaration that only TypeScript has. -/
def typedDeclaration (d : Dialect) (r : Rule → Parser Unit) (w : String) : Parser Unit := do
  match w with
  | "interface" => interfaceDeclaration r
  | "type" => typeAlias r
  | "enum" => enumDeclaration r
  | "const" => enumDeclaration r
  | "abstract" => classDeclaration d r
  | "namespace" | "module" => moduleDeclaration r
  | "import" => importAlias r
  | _ => fail

/-- A declaration. -/
def declaration (d : Dialect) (r : Rule → Parser Unit) : Nat → Parser Unit
  | 0 => fail
  | depth + 1 => do
    let w ← nextWord
    let special : Parser Unit := do
      check d.typed
      if w == "declare" then
        node "ambient_declaration" (do
          word "declare"
          sameRow
          (do word "global"; r .block) <|> declaration d r depth)
      else typedDeclaration d r w
    match w with
    | "function" => functionDeclaration d r
    | "async" => functionDeclaration d r
    | "class" => classDeclaration d r
    | "let" => lexicalDeclaration d r
    | "const" =>
      if d.typed && (← ahead (do word "const"; word "enum")) then enumDeclaration r
      else lexicalDeclaration d r
    | "var" => variableDeclaration d r
    | _ => if (← nextChar) == '@' then classDeclaration d r else special

/-! ## Imports and exports -/

/-- Names of exports may be strings, and one is `default`. -/
def exportName : Parser Unit := oneOf [node "" (word "default"), string, name]

/-- The module at the end of an import or an export. -/
def fromClause (r : Rule → Parser Unit) : Parser Unit := do
  word "from"
  field "source" (r .string)

/-- Attributes of an import. -/
def importAttributes (r : Rule → Parser Unit) : Parser Unit :=
  opt (node "import_attribute" (do
    wordIn ["with", "assert"]
    r .expression))

/-- A mark for imports and exports of types. -/
def typeMark (d : Dialect) : Parser Unit :=
  if d.typed then
    opt (do
      wordIn ["type", "typeof"]
      no (signIn [",", closeBrace, "="])
      no (do word "as"; freeWord []; signIn [",", closeBrace])
      no (word "from"))
  else Parser.pure ()

/-- One imported name. -/
def importSpecifier (d : Dialect) : Parser Unit :=
  node "import_specifier" (do
    typeMark d
    (do
      field "name" exportName
      word "as"
      field "alias" name) <|> field "name" name)

/-- Imported names between braces. -/
def namedImports (d : Dialect) : Parser Unit :=
  node "named_imports" (do
    sign openBrace
    sepBy (importSpecifier d) comma
    opt comma
    sign closeBrace)

/-- What an import statement takes from a module. -/
def importClause (d : Dialect) : Parser Unit :=
  node "import_clause" (do
    let group := node "namespace_import" (do sign "*"; word "as"; name) <|> namedImports d
    group <|> (do
      name
      opt (do comma; group)))

/-- An import statement. -/
def importStatement (d : Dialect) (r : Rule → Parser Unit) : Parser Unit :=
  node "import_statement" (do
    word "import"
    field "source" (r .string) <|> (do
      let clause := do
        importClause d
        fromClause r
      if d.typed then
        (do
          node "import_require_clause" (do
            opt (do word "type"; peek (do name; sign "="))
            name
            sign "="
            word "require"
            sign "("
            field "source" (r .string)
            sign ")")) <|>
        (do
          wordIn ["type", "typeof"]
          clause) <|> clause
      else clause)
    importAttributes r
    semicolon)

/-- One exported name. -/
def exportSpecifier (d : Dialect) : Parser Unit :=
  node "export_specifier" (do
    typeMark d
    field "name" exportName
    opt (do word "as"; field "alias" exportName))

/-- Exported names between braces. -/
def exportClause (d : Dialect) : Parser Unit :=
  node "export_clause" (do
    sign openBrace
    sepBy (exportSpecifier d) comma
    opt comma
    sign closeBrace)

/-- What is exported without a name for it. -/
def exportDefault (d : Dialect) (r : Rule → Parser Unit) : Parser Unit := do
  word "default"
  field "declaration" (declaration d r 8) <|> (do
    field "value" (r .expression)
    semicolon)

/-- The forms of exports that only TypeScript has. -/
def typedExport (d : Dialect) (r : Rule → Parser Unit) : Parser Unit := oneOf [
  (do
    word "type"
    exportClause d
    opt (fromClause r)
    semicolon),
  (do sign "="; r .expression; semicolon),
  (do word "as"; word "namespace"; name; semicolon)]

/-- An export statement. -/
def exportStatement (d : Dialect) (r : Rule → Parser Unit) : Parser Unit :=
  node "export_statement" (do
    many (field "decorator" (decorator r))
    word "export"
    oneOf [
      (do sign "*"; fromClause r; semicolon),
      (do
        node "namespace_export" (do sign "*"; word "as"; exportName)
        fromClause r
        semicolon),
      (do
        exportClause d
        opt (fromClause r)
        importAttributes r
        semicolon),
      exportDefault d r,
      (do check d.typed; typedExport d r),
      field "declaration" (declaration d r 8)])

/-! ## Control flow -/

/-- A condition in parentheses. -/
def condition (r : Rule → Parser Unit) : Parser Unit :=
  node "parenthesized_expression" (between "(" ")" (r .expressions))

/-- The head of a loop over members. -/
def forInHead (r : Rule → Parser Unit) : Parser Unit := do
  sign "("
  (do
    wordIn ["var", "let", "const"]
    field "left" (r .pattern)
    opt (do sign "="; field "value" (r .expression))) <|> field "left" (r .pattern)
  wordIn ["in", "of"]
  field "right" (r .expressions)
  sign ")"

/-- The head of a loop with a counter. -/
def forHead (d : Dialect) (r : Rule → Parser Unit) : Parser Unit := do
  let empty := node "empty_statement" (sign ";")
  sign "("
  field "initializer" (oneOf [
    lexicalDeclaration d r,
    variableDeclaration d r,
    empty,
    (do r .expressions; sign ";")])
  field "condition" (empty <|> (do r .expressions; sign ";"))
  opt (field "increment" (r .expressions))
  sign ")"

/-- A loop. -/
def forStatement (d : Dialect) (r : Rule → Parser Unit) : Parser Unit :=
  nodeOf (do
    word "for"
    let kind ← (do
      opt (word "await")
      forInHead r
      return "for_in_statement") <|> (do
      forHead d r
      return "for_statement")
    field "body" (r .statement)
    return kind)

/-- A choice between two statements. -/
def ifStatement (r : Rule → Parser Unit) : Parser Unit :=
  node "if_statement" (do
    word "if"
    field "condition" (condition r)
    field "consequence" (r .statement)
    opt (field "alternative" (node "else_clause" (do word "else"; r .statement))))

/-- A choice between values. -/
def switchStatement (r : Rule → Parser Unit) : Parser Unit :=
  node "switch_statement" (do
    word "switch"
    field "value" (condition r)
    field "body" (node "switch_body" (do
      sign openBrace
      many (oneOf [
        node "switch_case" (do
          word "case"
          field "value" (r .expressions)
          sign ":"
          many (field "body" (r .statement))),
        node "switch_default" (do
          word "default"
          sign ":"
          many (field "body" (r .statement)))])
      sign closeBrace)))

/-- A block with the handler of its exceptions. -/
def tryStatement (d : Dialect) (r : Rule → Parser Unit) : Parser Unit :=
  node "try_statement" (do
    word "try"
    field "body" (r .block)
    opt (field "handler" (node "catch_clause" (do
      word "catch"
      opt (do
        sign "("
        field "parameter" (r .pattern)
        if d.typed then opt (field "type" (typeNote r))
        sign ")")
      field "body" (r .block))))
    opt (field "finalizer" (node "finally_clause" (do
      word "finally"
      field "body" (r .block)))))

/-- A statement that leaves a loop or goes on with it. -/
def jump (kind w : String) : Parser Unit :=
  node kind (do
    word w
    opt (do
      sameRow
      field "label" (node "statement_identifier" (freeWord keywords)))
    semicolon)

/-- A statement made of an expression. -/
def expressionStatement (r : Rule → Parser Unit) : Parser Unit :=
  node "expression_statement" (do r .expressions; semicolon)

/-- A statement that starts with no word of its own. -/
def otherStatement (d : Dialect) (r : Rule → Parser Unit) : Parser Unit := do
  if ← ahead (do freeWord keywords; sign ":") then
    node "labeled_statement" (do
      field "label" (node "statement_identifier" (freeWord keywords))
      sign ":"
      field "body" (r .statement))
  else if d.typed && (← ahead (do wordIn ["namespace", "module"]; sameRow)) then
    node "expression_statement" (moduleDeclaration r) <|> expressionStatement r
  else declaration d r 8 <|> expressionStatement r

/-- A statement. -/
def statement (d : Dialect) (r : Rule → Parser Unit) : Parser Unit := do
  match ← nextChar with
  | '{' => r .block
  | ';' => node "empty_statement" (sign ";")
  | '@' => exportStatement d r <|> declaration d r 8 <|> expressionStatement r
  | _ =>
    match ← nextWord with
    | "" => expressionStatement r
    | "if" => ifStatement r
    | "for" => forStatement d r
    | "while" => node "while_statement" (do
        word "while"
        field "condition" (condition r)
        field "body" (r .statement))
    | "do" => node "do_statement" (do
        word "do"
        field "body" (r .statement)
        word "while"
        field "condition" (condition r)
        opt (sign ";"))
    | "switch" => switchStatement r
    | "try" => tryStatement d r
    | "with" => node "with_statement" (do
        word "with"
        field "object" (condition r)
        field "body" (r .statement))
    | "break" => jump "break_statement" "break"
    | "continue" => jump "continue_statement" "continue"
    | "debugger" => node "debugger_statement" (do word "debugger"; semicolon)
    | "return" => node "return_statement" (do
        word "return"
        opt (do sameRow; r .expressions)
        semicolon)
    | "throw" => node "throw_statement" (do word "throw"; r .expressions; semicolon)
    | "import" =>
      if ← ahead (do word "import"; signIn ["(", "."]) then expressionStatement r
      else importStatement d r <|> declaration d r 8
    | "export" => exportStatement d r
    | _ => otherStatement d r

end Script
end Syntax
end CodeAtlas

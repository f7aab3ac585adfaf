import CodeAtlas.Syntax.Java.Expression

/-!
# Java

Statements and declarations of Java.  Modifiers and annotations in front of a declaration belong
to it.
-/

namespace CodeAtlas
namespace Syntax
namespace Java

open CodeAtlas.Syntax.Parser

/-! ## Annotations and modifiers -/

/-- The value of an annotation. -/
def elementValue (r : Rule → Parser Unit) : Nat → Parser Unit
  | 0 => fail
  | depth + 1 => oneOf [
      r .remark,
      node "element_value_array_initializer" (do
        sign openBrace
        sepBy (elementValue r depth) comma
        opt comma
        sign closeBrace),
      r .expression]

/-- An annotation. -/
def remark (r : Rule → Parser Unit) : Parser Unit :=
  nodeOf (do
    sign "@"
    no (word "interface")
    field "name" qualifiedName
    if ← ahead (sign "(") then
      field "arguments" (node "annotation_argument_list" (do
        sign "("
        sepBy ((do
          peek (do name; sign "=")
          node "element_value_pair" (do
            field "key" name
            sign "="
            field "value" (elementValue r 64))) <|> elementValue r 64) comma
        sign ")"))
      return "annotation"
    return "marker_annotation")

/-- The words that may stand in front of a declaration. -/
def modifierWords : List String :=
  ["public", "protected", "private", "abstract", "static", "final", "strictfp", "default",
    "synchronized", "native", "transient", "volatile"]

/-- One modifier that is not an annotation. -/
def modifierWord : Parser Unit := oneOf [
  (do
    let w ← nextWord
    check (modifierWords.contains w)
    word w
    no (signIn [":", "->"])),
  (do wordIn ["sealed"]; peek (wordIn ("class" :: "interface" :: modifierWords))),
  (do word "non"; exactly "-"; word "sealed")]

/-- The modifiers of a declaration. -/
def modifiers (r : Rule → Parser Unit) : Parser Unit :=
  opt (node "modifiers" (many1 (r .remark <|> modifierWord)))

/-! ## Parameters and variables -/

/-- Type parameters in angle brackets. -/
def typeParameters (r : Rule → Parser Unit) : Parser Unit :=
  opt (do
    peek (exactly "<")
    field "type_parameters" (node "type_parameters" (do
      exactly "<"
      sepBy1 (node "type_parameter" (do
        many (r .remark)
        typeName
        opt (node "type_bound" (do
          word "extends"
          sepBy1 (r .type) (sign "&"))))) comma
      exactly ">")))

/-- One parameter of a method. -/
def parameter (r : Rule → Parser Unit) : Parser Unit := oneOf [
  node "formal_parameter" (do
    modifiers r
    field "type" (plainType r)
    field "name" name
    opt (field "dimensions" (dimensions r))),
  node "spread_parameter" (do
    modifiers r
    plainType r
    many (r .remark)
    sign "..."
    node "variable_declarator" (field "name" name)),
  node "receiver_parameter" (do
    many (r .remark)
    plainType r
    many (do name; sign ".")
    node "this" (word "this"))]

/-- The parameters of a method. -/
def parameters (r : Rule → Parser Unit) : Parser Unit :=
  node "formal_parameters" (do
    sign "("
    sepBy (parameter r) comma
    sign ")")

/-- A variable with its value. -/
def declarator (r : Rule → Parser Unit) : Parser Unit :=
  node "variable_declarator" (do
    field "name" name
    opt (field "dimensions" (dimensions r))
    opt (do
      sign "="
      field "value" (r .arrayInitializer <|> r .expression)))

/-- Variables of one type. -/
def variableList (r : Rule → Parser Unit) : Parser Unit := do
  modifiers r
  field "type" (plainType r)
  sepBy1 (field "declarator" (declarator r)) comma
  sign ";"

/-! ## Classes and their like -/

/-- Several types. -/
def typeList (r : Rule → Parser Unit) : Parser Unit :=
  node "type_list" (sepBy1 (r .type) comma)

/-- The interfaces of a class. -/
def interfaces (r : Rule → Parser Unit) : Parser Unit :=
  opt (field "interfaces" (node "super_interfaces" (do word "implements"; typeList r)))

/-- The classes that may extend a class. -/
def permits (r : Rule → Parser Unit) : Parser Unit :=
  opt (field "permits" (node "permits" (do word "permits"; typeList r)))

/-- A class. -/
def classDeclaration (r : Rule → Parser Unit) : Parser Unit :=
  node "class_declaration" (do
    modifiers r
    word "class"
    field "name" name
    typeParameters r
    opt (field "superclass" (node "superclass" (do word "extends"; r .type)))
    interfaces r
    permits r
    field "body" (r .classBody))

/-- A record. -/
def recordDeclaration (r : Rule → Parser Unit) : Parser Unit :=
  node "record_declaration" (do
    modifiers r
    word "record"
    field "name" name
    typeParameters r
    field "parameters" (parameters r)
    interfaces r
    field "body" (r .classBody))

/-- The exceptions of a method. -/
def throws (r : Rule → Parser Unit) : Parser Unit :=
  opt (node "throws" (do word "throws"; sepBy1 (r .type) comma))

/-- A method. -/
def methodDeclaration (r : Rule → Parser Unit) : Parser Unit :=
  node "method_declaration" (do
    modifiers r
    typeParameters r
    many (r .remark)
    field "type" (plainType r)
    field "name" name
    field "parameters" (parameters r)
    opt (field "dimensions" (dimensions r))
    throws r
    field "body" (r .block) <|> sign ";")

/-- The call of another constructor at the start of a constructor. -/
def constructorCall (r : Rule → Parser Unit) : Parser Unit :=
  node "explicit_constructor_invocation" (do
    (do
      opt (do
        peek (exactly "<")
        field "type_arguments" (r .typeArguments))
      field "constructor" (node "this" (word "this") <|> node "super" (word "super"))) <|> (do
      field "object" (name <|> node "this" (word "this"))
      sign "."
      opt (do
        peek (exactly "<")
        field "type_arguments" (r .typeArguments))
      field "constructor" (node "super" (word "super")))
    field "arguments" (r .arguments)
    sign ";")

/-- A constructor. -/
def constructorDeclaration (r : Rule → Parser Unit) : Parser Unit :=
  node "constructor_declaration" (do
    modifiers r
    typeParameters r
    field "name" name
    field "parameters" (parameters r)
    throws r
    field "body" (node "constructor_body" (do
      sign openBrace
      opt (constructorCall r)
      many (r .statement)
      sign closeBrace)))

/-- A constructor of a record that leaves its parameters out. -/
def compactConstructor (r : Rule → Parser Unit) : Parser Unit :=
  node "compact_constructor_declaration" (do
    modifiers r
    field "name" name
    field "body" (r .block))

/-- The constants of an enumeration and what follows them. -/
def enumBody (r : Rule → Parser Unit) (member : Parser Unit) : Parser Unit :=
  node "enum_body" (do
    sign openBrace
    sepBy (node "enum_constant" (do
      modifiers r
      field "name" name
      opt (field "arguments" (r .arguments))
      opt (field "body" (r .classBody)))) comma
    opt comma
    opt (node "enum_body_declarations" (do
      sign ";"
      many member))
    sign closeBrace)

/-- An enumeration. -/
def enumDeclaration (r : Rule → Parser Unit) (member : Parser Unit) : Parser Unit :=
  node "enum_declaration" (do
    modifiers r
    word "enum"
    field "name" name
    interfaces r
    field "body" (enumBody r member))

/-- An interface. -/
def interfaceDeclaration (r : Rule → Parser Unit) (member : Parser Unit) : Parser Unit :=
  node "interface_declaration" (do
    modifiers r
    word "interface"
    field "name" name
    typeParameters r
    opt (node "extends_interfaces" (do word "extends"; typeList r))
    permits r
    field "body" (node "interface_body" (do
      sign openBrace
      many member
      sign closeBrace)))

/-- A kind of annotation. -/
def annotationType (r : Rule → Parser Unit) (member : Parser Unit) : Parser Unit :=
  node "annotation_type_declaration" (do
    modifiers r
    sign "@"
    word "interface"
    field "name" name
    field "body" (node "annotation_type_body" (do
      sign openBrace
      many (node "annotation_type_element_declaration" (do
        modifiers r
        field "type" (plainType r)
        field "name" name
        sign "("
        sign ")"
        opt (field "dimensions" (dimensions r))
        opt (do word "default"; field "value" (elementValue r 64))
        sign ";") <|> member)
      sign closeBrace)))

/-- The declarations that may stand in a body, nested at most `depth` deep in one another's
headers. -/
def member (r : Rule → Parser Unit) : Nat → Bool → Parser Unit
  | 0, _ => fail
  | depth + 1, inInterface => do
    let inside := member r depth
    let fieldKind := if inInterface then "constant_declaration" else "field_declaration"
    match ← ahead (do modifiers r; signIn [openBrace, ";"]) with
    | true => oneOf [
        sign ";",
        r .block,
        node "static_initializer" (do word "static"; r .block)]
    | false =>
      match ← keywordAhead with
      | "class" => classDeclaration r
      | "interface" => interfaceDeclaration r (inside true)
      | "enum" => enumDeclaration r (inside false)
      | "@" => annotationType r (inside true)
      | "record" => recordDeclaration r <|> other fieldKind
      | _ => other fieldKind
where
  /-- The word behind the modifiers, or the sign of an annotation type. -/
  keywordAhead : Parser String := fun e s =>
    match (do modifiers r; return ((← nextWord), (← nextSign)) : Parser (String × String)) e s with
    | .done (w, t) _ => .done (if w == "" then t else w) s
    | .fail _ => .done "" s
  /-- A member that is not a type. -/
  other (fieldKind : String) : Parser Unit := oneOf [
    methodDeclaration r,
    constructorDeclaration r,
    node fieldKind (variableList r),
    compactConstructor r]

/-- The body of a class. -/
def classBody (r : Rule → Parser Unit) : Parser Unit :=
  node "class_body" (do
    sign openBrace
    many (member r 64 false)
    sign closeBrace)

/-- A type declared inside a block or at the top of a file. -/
def typeDeclaration (r : Rule → Parser Unit) : Parser Unit := do
  peek (do
    modifiers r
    wordIn ["class", "interface", "enum", "record"] <|> sign "@")
  oneOf [
    classDeclaration r,
    interfaceDeclaration r (member r 64 true),
    enumDeclaration r (member r 64 false),
    annotationType r (member r 64 true),
    recordDeclaration r]

/-! ## Statements -/

/-- A condition in parentheses. -/
def condition (r : Rule → Parser Unit) : Parser Unit :=
  node "parenthesized_expression" (between "(" ")" (r .expression))

/-- Statements between braces. -/
def block (r : Rule → Parser Unit) : Parser Unit :=
  node "block" (do
    sign openBrace
    many (r .statement)
    sign closeBrace)

/-- The label of a group of statements in a switch. -/
def switchLabel (r : Rule → Parser Unit) : Parser Unit :=
  node "switch_label" (oneOf [
    (do
      word "case"
      (do
        node "pattern" (recordPattern r 16 <|> node "type_pattern" (do plainType r; name))
        opt (node "guard" (do word "when"; r .expression))) <|>
        sepBy1 (oneOf [
          node "" (word "default"),
          (do name; peek (sign "->")),
          r .expression]) comma),
    word "default"])

/-- The body of a switch. -/
def switchBlock (r : Rule → Parser Unit) : Parser Unit :=
  node "switch_block" (do
    sign openBrace
    many (oneOf [
      node "switch_rule" (do
        switchLabel r
        sign "->"
        oneOf [
          r .block,
          node "throw_statement" (do word "throw"; r .expression; sign ";"),
          node "expression_statement" (do r .expression; sign ";")]),
      node "switch_block_statement_group" (do
        many1 (do switchLabel r; sign ":")
        many (r .statement))])
    sign closeBrace)

/-- A loop. -/
def forStatement (r : Rule → Parser Unit) : Parser Unit :=
  node "enhanced_for_statement" (do
    word "for"
    sign "("
    modifiers r
    field "type" (plainType r)
    field "name" name
    opt (field "dimensions" (dimensions r))
    sign ":"
    field "value" (r .expression)
    sign ")"
    field "body" (r .statement)) <|>
  node "for_statement" (do
    word "for"
    sign "("
    field "init" (node "local_variable_declaration" (variableList r)) <|> (do
      sepBy (field "init" (r .expression)) comma
      sign ";")
    opt (field "condition" (r .expression))
    sign ";"
    sepBy (field "update" (r .expression)) comma
    sign ")"
    field "body" (r .statement))

/-- The handlers of the exceptions of a block. -/
def handlers (r : Rule → Parser Unit) : Parser Unit := do
  many (node "catch_clause" (do
    word "catch"
    sign "("
    node "catch_formal_parameter" (do
      modifiers r
      node "catch_type" (sepBy1 (plainType r) (sign "|"))
      field "name" name)
    sign ")"
    field "body" (r .block)))
  opt (node "finally_clause" (do word "finally"; r .block))

/-- A block with the handlers of its exceptions. -/
def tryStatement (r : Rule → Parser Unit) : Parser Unit :=
  nodeOf (do
    word "try"
    if ← ahead (sign "(") then
      field "resources" (node "resource_specification" (do
        sign "("
        sepBy1 (node "resource" ((do
          modifiers r
          field "type" (plainType r)
          field "name" name
          sign "="
          field "value" (r .expression)) <|> r .expression)) (sign ";")
        opt (sign ";")
        sign ")"))
      field "body" (r .block)
      handlers r
      return "try_with_resources_statement"
    field "body" (r .block)
    handlers r
    return "try_statement")

/-- A statement that leaves a loop or goes on with it. -/
def jump (kind w : String) : Parser Unit :=
  node kind (do word w; opt name; sign ";")

/-- A declaration of variables or an expression. -/
def plainStatement (r : Rule → Parser Unit) : Parser Unit := do
  if ← ahead (do freeWord keywords; sign ":") then
    node "labeled_statement" (do name; sign ":"; r .statement)
  else oneOf [
    node "local_variable_declaration" (variableList r),
    node "expression_statement" (do r .expression; sign ";")]

/-- A statement. -/
def statement (r : Rule → Parser Unit) : Parser Unit := do
  match ← nextChar with
  | '{' => r .block
  | ';' => sign ";"
  | '@' => oneOf [typeDeclaration r, plainStatement r]
  | _ =>
    match ← nextWord with
    | "if" => node "if_statement" (do
        word "if"
        field "condition" (condition r)
        field "consequence" (r .statement)
        opt (do word "else"; field "alternative" (r .statement)))
    | "while" => node "while_statement" (do
        word "while"
        field "condition" (condition r)
        field "body" (r .statement))
    | "do" => node "do_statement" (do
        word "do"
        field "body" (r .statement)
        word "while"
        field "condition" (condition r)
        sign ";")
    | "for" => forStatement r
    | "try" => tryStatement r
    | "switch" =>
      (do
        switchExpression r
        no (signIn [".", ";", "::", "["])) <|>
        node "expression_statement" (do r .expression; sign ";")
    | "synchronized" => node "synchronized_statement" (do
        word "synchronized"
        condition r
        field "body" (r .block))
    | "break" => jump "break_statement" "break"
    | "continue" => jump "continue_statement" "continue"
    | "return" => node "return_statement" (do
        word "return"
        opt (r .expression)
        sign ";")
    | "throw" => node "throw_statement" (do word "throw"; r .expression; sign ";")
    | "assert" => node "assert_statement" (do
        word "assert"
        r .expression
        opt (do sign ":"; r .expression)
        sign ";")
    | "yield" =>
      node "yield_statement" (do word "yield"; r .expression; sign ";") <|> plainStatement r
    | w =>
      if w != "record" && w != "sealed" && w != "non" && !keywords.contains w then plainStatement r
      else oneOf [typeDeclaration r, plainStatement r]

/-! ## The grammar -/

/-- The productions of Java. -/
def grammar : Grammar Rule := fun r rule =>
  match rule with
  | .statement => statement r
  | .block => block r
  | .expression => expression r
  | .operand level => operand r level
  | .type => type r
  | .typeArguments => typeArguments r
  | .arguments => arguments r
  | .arrayInitializer => arrayInitializer r
  | .remark => remark r
  | .parameters => parameters r
  | .classBody => classBody r
  | .switchBlock => switchBlock r

/-- What may stand at the top of a file. -/
def topLevel (r : Rule → Parser Unit) : Parser Unit := do
  match ← nextWord with
  | "import" => node "import_declaration" (do
      word "import"
      opt (word "static")
      qualifiedName
      opt (do sign "."; node "asterisk" (sign "*"))
      sign ";")
  | "package" => package
  | "module" | "open" => modules <|> r .statement <|> methodDeclaration r
  | _ => oneOf [package, r .statement, methodDeclaration r]
where
  /-- The description of a module. -/
  modules : Parser Unit := node "module_declaration" (do
    opt (word "open")
    word "module"
    field "name" qualifiedName
    field "body" (node "module_body" (do
      sign openBrace
      many (node "module_directive" (do
        many1 (freeWord [] <|> sign "." <|> comma)
        sign ";"))
      sign closeBrace)))
  /-- The package of the file. -/
  package : Parser Unit := node "package_declaration" (do
    many (r .remark)
    word "package"
    qualifiedName
    sign ";")

/-- A whole file. -/
def program (fuel : Nat) : Parser Unit :=
  node "program" (many (topLevel (grammar.run fuel)))

/-- The tree of a Java text, or the furthest place at which it does not fit the grammar. -/
def parse (source : Source) (repair : Repair) : Except Nat Tree :=
  parseWhole lexis source repair false (program (16 * source.size + 64))

end Java
end Syntax
end CodeAtlas

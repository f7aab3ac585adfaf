import CodeAtlas.Syntax.Parser
import CodeAtlas.Text.Word

/-!
# Expressions and types of Java

Operators bind by levels, from `||` at the first to `*` at the tenth.  A name in front of
`.class` or behind `new` is the name of a type, and so is a name in a declaration.
-/

namespace CodeAtlas
namespace Syntax
namespace Java

open CodeAtlas.Syntax.Parser

/-- Comments run to the end of their row or up to a closing mark. -/
def comment? (s : Source) (i : Nat) : Option (String × Nat) :=
  if s.hasAt i ['/', '/'] then some ("line_comment", s.endOfRow i)
  else if s.hasAt i ['/', '*'] then some ("block_comment", s.endOfFirst ['*', '/'] (i + 2))
  else none

/-- The lexical rules of Java. -/
def lexis : Lexis where
  isBlank c := c == ' ' || c == '\t' || c == '\n' || c == '\r' || c == '\x0c' || c == '\uFEFF'
  comment? := comment?
  startsWord c := (Text.isWordChar c && !c.isDigit) || c == '$'
  continuesWord c := Text.isWordChar c || c == '$'
  punctuators := [">>>=", "...", "<<=", ">>=", ">>>", "->", "::", "==", "!=", "<=", ">=", "&&",
    "||", "++", "--", "+=", "-=", "*=", "/=", "%=", "&=", "|=", "^=", "<<", ">>", openBrace,
    closeBrace, "(", ")", "[", "]", ";", ",", "<", ">", "+", "-", "*", "/", "%", "&", "|", "^",
    "!", "~", "?", ":", "=", ".", "@"].map String.toList

/-- The words that are never names. -/
def keywords : List String :=
  ["abstract", "assert", "boolean", "break", "byte", "case", "catch", "char", "class", "const",
    "continue", "default", "do", "double", "else", "enum", "extends", "final", "finally", "float",
    "for", "if", "goto", "implements", "import", "instanceof", "int", "interface", "long",
    "native", "new", "package", "private", "protected", "public", "return", "short", "static",
    "strictfp", "super", "switch", "synchronized", "this", "throw", "throws", "transient", "try",
    "void", "volatile", "while", "true", "false", "null"]

/-- The rules that refer to one another. -/
inductive Rule where
  | statement
  | block
  | expression
  | operand (level : Nat)
  | type
  | typeArguments
  | arguments
  | arrayInitializer
  | remark
  | parameters
  | classBody
  | switchBlock
deriving DecidableEq

/-- A name. -/
def name : Parser Unit := node "identifier" (freeWord keywords)

/-- The name of a type. -/
def typeName : Parser Unit := node "type_identifier" (freeWord keywords)

/-- A comma between items. -/
def comma : Parser Unit := sign ","

/-- A name with the names of packages in front of it. -/
def qualifiedName : Parser Unit := do
  name
  many (extend "scoped_identifier" "scope" (do sign "."; field "name" name))

/-! ## Types -/

/-- The types that are built in. -/
def builtIn : Parser Unit := do
  let w ← nextWord
  match w with
  | "void" => node "void_type" (word w)
  | "byte" | "short" | "int" | "long" | "char" => node "integral_type" (word w)
  | "float" | "double" => node "floating_point_type" (word w)
  | "boolean" => node "boolean_type" (word w)
  | _ => fail

/-- The arguments of a generic type. -/
def typeArguments (r : Rule → Parser Unit) : Parser Unit :=
  node "type_arguments" (do
    exactly "<"
    sepBy (node "wildcard" (do
      many (r .remark)
      sign "?"
      opt (do
        node "" (word "extends") <|> node "super" (word "super")
        r .type)) <|> r .type) comma
    exactly ">")

/-- A type without dimensions. -/
def simpleType (r : Rule → Parser Unit) : Parser Unit :=
  builtIn <|> (do
    let generic := opt (do
      peek (exactly "<")
      extend "generic_type" "" (r .typeArguments))
    typeName
    generic
    many (do
      extend "scoped_type_identifier" "" (do
        sign "."
        many (r .remark)
        typeName)
      generic))

/-- Empty brackets behind a type or a name. -/
def dimensions (r : Rule → Parser Unit) : Parser Unit :=
  node "dimensions" (many1 (do many (r .remark); sign "["; sign "]"))

/-- A type without annotations in front of it. -/
def plainType (r : Rule → Parser Unit) : Parser Unit := do
  simpleType r
  opt (extend "array_type" "element" (field "dimensions" (dimensions r)))

/-- A type. -/
def type (r : Rule → Parser Unit) : Parser Unit := do
  if (← nextChar) == '@' then
    node "annotated_type" (do
      many1 (r .remark)
      plainType r)
  else plainType r

/-! ## Literals -/

/-- The end of a number at an index. -/
def numberEnd? (s : Source) (i : Nat) : Option Nat :=
  let c := s.charAt i
  let startsFraction := c == '.' && (s.charAt (i + 1)).isDigit
  if !c.isDigit && !startsFraction then none
  else
    let body (d : Char) : Bool := d.isAlphanum || d == '_' || d == '.'
    let isHex := c == '0' && (s.charAt (i + 1)).toLower == 'x'
    let j := s.scanWhile body i
    let before := (s.charAt (j - 1)).toLower
    if ((before == 'e' && !isHex) || (before == 'p' && isHex)) &&
        (s.charAt j == '+' || s.charAt j == '-') then
      some (s.scanWhile body (j + 1))
    else some j

/-- The kind of a number. -/
def numberKind (text : List Char) : String :=
  match text.map Char.toLower with
  | '0' :: 'x' :: rest =>
    if rest.contains 'p' || rest.contains '.' then "hex_floating_point_literal"
    else "hex_integer_literal"
  | '0' :: 'b' :: _ => "binary_integer_literal"
  | lower =>
    if lower.contains '.' || lower.contains 'e' || lower.getLast? == some 'f' ||
        lower.getLast? == some 'd' then
      "decimal_floating_point_literal"
    else if lower.head? == some '0' && lower.length > 1 && lower != ['0', 'l'] then
      "octal_integer_literal"
    else "decimal_integer_literal"

/-- A number. -/
def number : Parser Unit := do
  let i ← here
  let s ← source
  match numberEnd? s i with
  | none => fail
  | some j => node (numberKind (s.slice i j)) (consumeTo j)

/-- The end of a quoted text behind its opening quotes. -/
def quotedEnd? (s : Source) (quotes : List Char) : Nat → Nat → Option Nat
  | 0, _ => none
  | fuel + 1, i =>
    match s.get? i with
    | none => none
    | some c =>
      if s.hasAt i quotes then some (i + quotes.length)
      else if c == '\\' then quotedEnd? s quotes fuel (i + 2)
      else if c == '\n' && quotes.length == 1 then none
      else quotedEnd? s quotes fuel (i + 1)

/-- A string or a character. -/
def quoted : Parser Unit := do
  let i ← here
  let s ← source
  let (kind, quotes) : String × List Char :=
    if s.hasAt i ['"', '"', '"'] then ("string_literal", ['"', '"', '"'])
    else if s.charAt i == '"' then ("string_literal", ['"'])
    else ("character_literal", ['\''])
  check (s.hasAt i quotes)
  match quotedEnd? s quotes s.size (i + quotes.length) with
  | some j => node kind (consumeTo j)
  | none => fail

/-! ## Operands -/

/-- The arguments of a call. -/
def arguments (r : Rule → Parser Unit) : Parser Unit :=
  node "argument_list" (do
    sign "("
    sepBy (r .expression) comma
    sign ")")

/-- Values between braces. -/
def arrayInitializer (r : Rule → Parser Unit) : Parser Unit :=
  node "array_initializer" (do
    sign openBrace
    sepBy (r .arrayInitializer <|> r .expression) comma
    opt comma
    sign closeBrace)

/-- The making of an object, from `new` on. -/
def creation (r : Rule → Parser Unit) : Parser Unit := do
  word "new"
  many (r .remark)
  opt (do
    peek (exactly "<")
    r .typeArguments)
  field "type" (simpleType r)
  field "arguments" (r .arguments)
  opt (r .classBody)

/-- The making of an array. -/
def arrayCreation (r : Rule → Parser Unit) : Parser Unit :=
  node "array_creation_expression" (do
    word "new"
    many (r .remark)
    field "type" (simpleType r)
    many (field "dimensions" (node "dimensions_expr" (do
      many (r .remark)
      sign "["
      r .expression
      sign "]")))
    opt (field "dimensions" (dimensions r))
    opt (field "value" (r .arrayInitializer)))

/-- The parameters of a lambda expression. -/
def lambdaParameters (r : Rule → Parser Unit) : Parser Unit := oneOf [
  name,
  node "inferred_parameters" (do
    sign "("
    sepBy1 name comma
    sign ")"),
  r .parameters]

/-- A lambda expression. -/
def lambda (r : Rule → Parser Unit) : Parser Unit :=
  node "lambda_expression" (do
    field "parameters" (lambdaParameters r)
    sign "->"
    field "body" (r .block <|> r .expression))

/-- The next lexeme may start the value of a cast to a type that is not built in. -/
def startsCastValue : Parser Unit := do
  let w ← nextWord
  if w != "" then check (w != "instanceof")
  else
    let c ← nextChar
    check (c == '(' || c == '!' || c == '~' || c == '"' || c == '\'' || c.isDigit)

/-- A value turned into another type. -/
def cast (r : Rule → Parser Unit) : Parser Unit :=
  node "cast_expression" (do
    sign "("
    let basic ← ahead builtIn
    field "type" (r .type)
    many (do sign "&"; field "type" (r .type))
    sign ")"
    if !basic then startsCastValue
    field "value" (lambda r <|> r (.operand 11)))

/-- The class of a type as a value. -/
def classLiteral (r : Rule → Parser Unit) : Parser Unit :=
  node "class_literal" (do plainType r; sign "."; word "class")

/-- A reference to a method of a generic type or an array type. -/
def typeMethodReference (r : Rule → Parser Unit) : Parser Unit :=
  node "method_reference" (do
    plainType r
    check (["generic_type", "array_type"].contains (← lastKind))
    sign "::"
    node "" (word "new") <|> name)

/-- A switch with a value. -/
def switchExpression (r : Rule → Parser Unit) : Parser Unit :=
  node "switch_expression" (do
    word "switch"
    field "condition" (node "parenthesized_expression" (between "(" ")" (r .expression)))
    field "body" (r .switchBlock))

/-- An operand that starts with a name. -/
def nameOperand (r : Rule → Parser Unit) : Parser Unit := do
  if ← ahead (do freeWord keywords; sign "->") then lambda r
  else if ← ahead (do freeWord keywords; sign "(") then
    node "method_invocation" (do
      field "name" name
      field "arguments" (r .arguments))
  else if ← ahead (do freeWord keywords; signIn [".", "<", "["]) then
    oneOf [classLiteral r, typeMethodReference r, name]
  else name

/-- An operand without anything behind it. -/
def atom (r : Rule → Parser Unit) : Parser Unit := do
  let w ← nextWord
  match w with
  | "" =>
    match ← nextChar with
    | '(' => oneOf [
        lambda r,
        cast r,
        node "parenthesized_expression" (between "(" ")" (r .expression))]
    | '"' | '\'' => quoted
    | _ => number
  | "new" => node "object_creation_expression" (creation r) <|> arrayCreation r
  | "this" => node "this" (word w)
  | "super" => node "super" (word w)
  | "null" => node "null_literal" (word w)
  | "true" => node "true" (word w)
  | "false" => node "false" (word w)
  | "switch" => switchExpression r
  | _ =>
    if keywords.contains w then classLiteral r <|> typeMethodReference r
    else nameOperand r

/-- What may follow a dot behind an operand. -/
def dotTrailer (r : Rule → Parser Unit) : Parser Unit := oneOf [
  extend "method_invocation" "object" (do
    sign "."
    opt (do node "super" (word "super"); sign ".")
    opt (do
      peek (exactly "<")
      field "type_arguments" (r .typeArguments))
    field "name" name
    field "arguments" (r .arguments)),
  extend "object_creation_expression" "" (do sign "."; creation r),
  extend "field_access" "object" (do
    sign "."
    opt (do node "super" (word "super"); sign ".")
    field "field" (node "this" (word "this") <|> name))]

/-- Members, subscripts and references behind an operand. -/
def trailer (r : Rule → Parser Unit) : Parser Unit := do
  match ← nextSign with
  | "." => dotTrailer r
  | "[" =>
    extend "array_access" "array" (do
      sign "["
      field "index" (r .expression)
      sign "]")
  | "::" =>
    extend "method_reference" "" (do
      sign "::"
      opt (do
        peek (exactly "<")
        r .typeArguments)
      node "" (word "new") <|> name)
  | _ => fail

/-- An operand with everything that follows it. -/
def primary (r : Rule → Parser Unit) : Parser Unit := do
  atom r
  many (trailer r)

/-- An operand with the signs before and behind it. -/
def signed (r : Rule → Parser Unit) : Parser Unit := do
  let s ← nextSign
  match s with
  | "!" | "~" | "+" | "-" =>
    node "unary_expression" (do sign s; field "operand" (r (.operand 11)))
  | "++" | "--" => node "update_expression" (do sign s; r (.operand 11))
  | _ =>
    primary r
    many (extend "update_expression" "" (signIn ["++", "--"]))

/-- How closely a sign between two operands binds. -/
def binaryLevel (operator : String) : Nat :=
  match operator with
  | "||" => 1
  | "&&" => 2
  | "|" => 3
  | "^" => 4
  | "&" => 5
  | "==" | "!=" => 6
  | "<" | "<=" | ">" | ">=" => 7
  | "<<" | ">>" | ">>>" => 8
  | "+" | "-" => 9
  | "*" | "/" | "%" => 10
  | _ => 0

/-- A pattern that takes a record apart. -/
def recordPattern (r : Rule → Parser Unit) : Nat → Parser Unit
  | 0 => fail
  | depth + 1 => node "record_pattern" (do
    name <|> simpleType r
    node "record_pattern_body" (do
      sign "("
      sepBy (recordPattern r depth <|> node "record_pattern_component" (do
        r .type
        name)) comma
      sign ")"))

/-- One more operator of at least the given level behind an operand. -/
def operatorStep (r : Rule → Parser Unit) (level : Nat) : Parser Unit := do
  let operator ← nextSign
  let n := binaryLevel operator
  if n != 0 then
    check (level ≤ n)
    extend "binary_expression" "left" (do
      sign operator
      field "right" (r (.operand (n + 1))))
  else
    check (level ≤ 7)
    extend "instanceof_expression" "left" (do
      word "instanceof"
      opt (word "final")
      field "pattern" (recordPattern r 16) <|> (do
        field "right" (r .type)
        opt (field "name" name)))

/-- An operand with all operators of at least the given level. -/
def operand (r : Rule → Parser Unit) (level : Nat) : Parser Unit := do
  signed r
  if level ≤ 10 then many (operatorStep r level)

/-- The signs that assign. -/
def assignSigns : List String :=
  ["=", "+=", "-=", "*=", "/=", "&=", "|=", "^=", "%=", "<<=", ">>=", ">>>="]

/-- An expression. -/
def expression (r : Rule → Parser Unit) : Parser Unit := do
  operand r 1
  match ← nextSign with
  | "?" =>
    extend "ternary_expression" "condition" (do
      sign "?"
      field "consequence" (r .expression)
      sign ":"
      field "alternative" (r .expression))
  | s =>
    if assignSigns.contains s &&
        ["identifier", "field_access", "array_access"].contains (← lastKind) then
      extend "assignment_expression" "left" (do
        sign s
        field "right" (r .expression))

end Java
end Syntax
end CodeAtlas

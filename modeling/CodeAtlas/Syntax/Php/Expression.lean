import CodeAtlas.Syntax.Parser
import CodeAtlas.Text.Word

/-!
# Expressions and types of PHP

Words of the language may be written in any case.  Text outside of the tags counts as a gap
between lexemes, like a comment.  An assignment binds as closely as the variable on its left, so
that it may stand behind any operator.
-/

namespace CodeAtlas
namespace Syntax
namespace Php

open CodeAtlas.Syntax.Parser

/-- The end of a comment on one row; it also ends before a closing tag.  A question mark at the
end of the row takes the row end in. -/
def rowCommentEnd (s : Source) : Nat → Nat → Nat
  | 0, i => i
  | fuel + 1, i =>
    match s.get? i with
    | none => i
    | some '\n' | some '\r' => i
    | some '?' =>
      match s.get? (i + 1) with
      | some '>' => i
      | some '\n' => i + 2
      | some '\r' => if s.charAt (i + 2) == '\n' then i + 3 else i
      | some _ => rowCommentEnd s fuel (i + 2)
      | none => i
    | some _ => rowCommentEnd s fuel (i + 1)

/-- The end of an opening tag at an index. -/
def tagEnd (s : Source) (i : Nat) : Nat :=
  let word := (s.slice (i + 2) (i + 5)).map Char.toLower
  if word == ['p', 'h', 'p'] then i + 5
  else if s.charAt (i + 2) == '=' then i + 3
  else i + 2

/-- The end of the text between a closing tag and the next opening one. -/
def interpolationEnd (s : Source) (i : Nat) : Nat :=
  match s.findFrom ['<', '?'] (s.size + 1 - i) i with
  | some j => tagEnd s j
  | none => s.size

/-- Comments, and text outside of the tags. -/
def comment? (s : Source) (i : Nat) : Option (String × Nat) :=
  if s.hasAt i ['/', '/'] then some ("comment", rowCommentEnd s s.size (i + 2))
  else if s.hasAt i ['#', '['] then none
  else if s.hasAt i ['#'] then some ("comment", rowCommentEnd s s.size (i + 1))
  else if s.hasAt i ['/', '*'] then some ("comment", s.endOfFirst ['*', '/'] (i + 2))
  else if s.hasAt i ['?', '>'] then some ("text_interpolation", interpolationEnd s (i + 2))
  else none

/-- The character may start a name. -/
def startsName (c : Char) : Bool :=
  c.isAlpha || c == '_' || (0x80 ≤ c.toNat && c.toNat != 0xA0 && c.toNat != 0x200B &&
    c.toNat != 0x2060 && c.toNat != 0xFEFF)

/-- The character may stand in a name. -/
def continuesName (c : Char) : Bool := startsName c || c.isDigit

/-- The lexical rules of PHP. -/
def lexis : Lexis where
  isBlank c := c == ' ' || c == '\t' || c == '\n' || c == '\r' || c == '\x0c' || c == '\x0b' ||
    c.toNat == 0xA0 || c.toNat == 0x200B || c.toNat == 0x2060 || c.toNat == 0xFEFF
  comment? := comment?
  startsWord := startsName
  continuesWord := continuesName
  punctuators := ["<<<", "<=>", "===", "!==", "**=", "...", "<<=", ">>=", "??=", "?->", "->", "=>",
    "::", "==", "!=", "<>", "<=", ">=", "&&", "||", "??", "++", "--", "+=", "-=", "*=", "/=", ".=",
    "%=", "&=", "|=", "^=", "<<", ">>", "**", openBrace, closeBrace, "(", ")", "[", "]", ";", ",",
    "<", ">", "+", "-", "*", "/", "%", "&", "|", "^", "!", "~", "?", ":", "=", ".", "@", "$", "\\",
    "#"].map String.toList

/-- The words that are never names. -/
def keywords : List String :=
  ["abstract", "and", "as", "break", "case", "catch", "class", "clone", "const", "continue",
    "declare", "default", "do", "echo", "else", "elseif", "enddeclare", "endfor", "endforeach",
    "endif", "endswitch", "endwhile", "extends", "final", "finally", "fn", "for", "foreach",
    "function", "global", "goto", "if", "implements", "include", "include_once", "instanceof",
    "insteadof", "interface", "namespace", "new", "or", "print", "require", "require_once",
    "return", "static", "switch", "throw", "trait", "try", "unset", "use", "var", "while", "xor",
    "yield"]

/-- The rules that refer to one another. -/
inductive Rule where
  | statement
  | compound
  | expression
  | operand (level : Nat)
  | variable
  | arguments
  | parameters
  | type
  | attributes
  | members
deriving DecidableEq

/-! ## Words -/

/-- The next word in lower case. -/
def nextKeyword : Parser String := do
  return String.ofList ((← nextWord).toList.map Char.toLower)

/-- Reads a word of the language in any case. -/
def keyword (w : String) : Parser Unit := do
  if (← nextKeyword) == w then word (← nextWord) else fail

/-- Reads one of several words of the language. -/
def keywordIn (ws : List String) : Parser Unit := do
  let w ← nextKeyword
  if w != "" && ws.contains w then keyword w else fail

/-- A word that can be a name. -/
def freeName : Parser Unit := do
  if keywords.contains (← nextKeyword) then fail else freeWord []

/-- A name. -/
def name : Parser Unit := node "name" freeName

/-- A name in a place where every word is one. -/
def anyName : Parser Unit := node "name" (freeWord [])

/-- A comma between items. -/
def comma : Parser Unit := sign ","

/-- A variable. -/
def variableName : Parser Unit :=
  node "variable_name" (do sign "$"; anyName)

/-- The names in front of the last one of a qualified name. -/
def namePrefix : Parser Unit := field "prefix" (node "namespace_name" (do
  anyName
  many (do
    peek (do sign "\\"; freeWord []; sign "\\"; freeWord [])
    sign "\\"
    anyName)))

/-- A name, perhaps with the names of namespaces in front of it. -/
def qualifiedName : Parser Unit := do
  if ← ahead (sign "\\") then
    node "qualified_name" (do
      sign "\\"
      opt (do
        peek (do freeWord []; sign "\\"; freeWord [])
        namePrefix
        sign "\\")
      anyName)
  else if ← ahead (do freeWord []; sign "\\"; freeWord []) then
    node "qualified_name" (do
      namePrefix
      sign "\\"
      anyName)
  else name

/-! ## Types -/

/-- The types that are built in. -/
def builtInTypes : List String :=
  ["array", "callable", "iterable", "bool", "float", "int", "string", "void", "mixed", "false",
    "null", "true", "static"]

/-- A type that is built in; only one of them may be written in any case. -/
def builtInType : Parser Unit :=
  node "primitive_type" (wordIn builtInTypes <|> keyword "callable")

/-- A type without operators. -/
def simpleType (r : Rule → Parser Unit) : Parser Unit := oneOf [
  between "(" ")" (r .type),
  node "optional_type" (do
    sign "?"
    builtInType <|> node "named_type" qualifiedName),
  node "bottom_type" (word "never"),
  (do
    builtInType
    no (sign "\\")),
  node "named_type" qualifiedName]

/-- A type. -/
def type (r : Rule → Parser Unit) : Parser Unit := do
  simpleType r
  (do
    peek (sign "|")
    extend "union_type" "" (many1 (do sign "|"; simpleType r))) <|>
  opt (do
    peek (do sign "&"; no (sign "$"); no (sign "..."); no (sign "&"))
    extend "intersection_type" "" (many1 (do
      sign "&"
      no (sign "$")
      simpleType r)))

/-- What a function returns. -/
def returnType (r : Rule → Parser Unit) : Parser Unit :=
  opt (do sign ":"; field "return_type" (r .type))

/-! ## Literals -/

/-- The end of a number at an index. -/
def numberEnd? (s : Source) (i : Nat) : Option Nat :=
  let c := s.charAt i
  let startsFraction := c == '.' && (s.charAt (i + 1)).isDigit
  if !c.isDigit && !startsFraction then none
  else
    let body (d : Char) : Bool := d.isAlphanum || d == '_'
    let isHex := c == '0' && ['x', 'X', 'b', 'B', 'o', 'O'].contains (s.charAt (i + 1))
    let whole := if startsFraction then i else s.scanWhile body i
    let j :=
      if !isHex && s.charAt whole == '.' && s.charAt (whole + 1) != '.' || startsFraction then
        s.scanWhile body (whole + 1)
      else whole
    let before := s.charAt (j - 1)
    if (before == 'e' || before == 'E') && !isHex && (s.charAt j == '+' || s.charAt j == '-') then
      some (s.scanWhile body (j + 1))
    else some j

/-- A number. -/
def number : Parser Unit := do
  let i ← here
  let s ← source
  match numberEnd? s i with
  | none => fail
  | some j =>
    let text := (s.slice i j).map Char.toLower
    let isFloat := text.contains '.' || (text.contains 'e' && text.take 2 != ['0', 'x'])
    node (if isFloat then "float" else "integer") (consumeTo j)

/-- Reads up to an index, as a node of its own. -/
def piece (kind : String) (first stop : Nat) : Parser Unit := fun _ s =>
  .done () { s with pos := stop, last := stop, out := Tree.node kind "" first stop [] :: s.out }

/-- A text in single quotes. -/
def plainString : Parser Unit := do
  let i ← here
  let s ← source
  check (s.charAt i == '\'')
  let rec scan : Nat → Nat → Option Nat
    | 0, _ => none
    | fuel + 1, j =>
      match s.get? j with
      | none => none
      | some '\\' => scan fuel (j + 2)
      | some '\'' => some (j + 1)
      | some _ => scan fuel (j + 1)
  match scan s.size (i + 1) with
  | some j => node "string" (consumeTo j)
  | none => fail

/-- A variable inside a text, with at most one member or subscript. -/
def textVariable (i : Nat) : Parser Unit := do
  let s ← source
  jumpTo i
  let j := s.scanWhile continuesName (i + 1)
  node "variable_name" (do
    jumpTo (i + 1)
    piece "name" (i + 1) j)
  if s.hasAt j ['-', '>'] && startsName (s.charAt (j + 2)) then
    extend "member_access_expression" "object" (do
      let k := s.scanWhile continuesName (j + 2)
      piece "name" (j + 2) k
      lastField "name")
  else if s.charAt j == '[' then
    let k := s.scanWhile (fun c => c != ']' && c != '\n' && c != '"') j
    if s.charAt k == ']' then extend "subscript_expression" "" (jumpTo (k + 1))

/-- Reads a text with variables in it up to an end, which is not read. -/
def textBody (r : Rule → Parser Unit) (ends : Source → Nat → Bool) : Nat → Parser Unit
  | 0 => fail
  | fuel + 1 => do
    let i ← position
    let s ← source
    match s.get? i with
    | none => fail
    | some c =>
      if ends s i then return
      if c == '\\' then
        piece "escape_sequence" i (i + 2)
        textBody r ends fuel
      else if c == '{' && s.charAt (i + 1) == '$' then
        jumpTo (i + 1)
        r .expression
        exactly closeBrace
        textBody r ends fuel
      else if c == '$' && s.charAt (i + 1) == '{' then
        node "dynamic_variable_name" (do
          jumpTo (i + 2)
          r .expression
          exactly closeBrace)
        textBody r ends fuel
      else if c == '$' && startsName (s.charAt (i + 1)) then
        textVariable i
        textBody r ends fuel
      else
        let rec run : Nat → Nat → Nat
          | 0, j => j
          | more + 1, j =>
            match s.get? j with
            | none => j
            | some d => if ends s j || d == '\\' || d == '{' || d == '$' then j else run more (j + 1)
        piece "string_content" i (max (i + 1) (run s.size (i + 1)))
        textBody r ends fuel

/-- A text in double quotes. -/
def richString (r : Rule → Parser Unit) : Parser Unit := do
  let i ← here
  let s ← source
  check (s.charAt i == '"')
  node "encapsed_string" (do
    consumeTo (i + 1)
    textBody r (fun s j => s.charAt j == '"') (s.size + 1)
    jumpTo ((← position) + 1))

/-- A command in back quotes. -/
def commandString (r : Rule → Parser Unit) : Parser Unit := do
  let i ← here
  let s ← source
  check (s.charAt i == '\x60')
  node "shell_command_expression" (do
    consumeTo (i + 1)
    textBody r (fun s j => s.charAt j == '\x60') (s.size + 1)
    jumpTo ((← position) + 1))

/-- The closing label of a text over several rows stands at an index, behind a row end. -/
def closesLabel (label : List Char) (s : Source) (i : Nat) : Bool :=
  s.charAt i == '\n' &&
    let j := s.scanWhile (fun c => c == ' ' || c == '\t') (i + 1)
    s.hasAt j label && !continuesName (s.charAt (j + label.length))

/-- A text over several rows, between labels. -/
def rowsString (r : Rule → Parser Unit) : Parser Unit := do
  let i ← here
  let s ← source
  check (s.hasAt i ['<', '<', '<'])
  let j := s.scanWhile (fun c => c == ' ' || c == '\t') (i + 3)
  let quote := s.charAt j
  let first := if quote == '"' || quote == '\'' then j + 1 else j
  let last := s.scanWhile continuesName first
  check (first < last)
  let label := s.slice first last
  let close : Parser Unit := do
    let k ← position
    let start := s.scanWhile (fun c => c == ' ' || c == '\t') (k + 1)
    jumpTo (start + label.length)
  let opened := s.endOfRow last
  if quote == '\'' then
    node "nowdoc" (do
      consumeTo opened
      let rec find : Nat → Nat → Option Nat
        | 0, _ => none
        | fuel + 1, k => if closesLabel label s k then some k else find fuel (k + 1)
      match find s.size opened with
      | some k =>
        jumpTo k
        close
      | none => fail)
  else
    node "heredoc" (do
      consumeTo opened
      textBody r (closesLabel label) (s.size + 1)
      close)

/-! ## Functions -/

/-- One parameter of a function. -/
def parameter (r : Rule → Parser Unit) : Parser Unit :=
  nodeOf (do
    opt (field "attributes" (r .attributes))
    let promoted ← ahead (keywordIn ["public", "protected", "private", "readonly"])
    many (oneOf [
      field "visibility" (node "visibility_modifier"
        (keywordIn ["public", "protected", "private"])),
      field "readonly" (node "readonly_modifier" (keyword "readonly"))])
    opt (field "type" (r .type))
    opt (field "reference_modifier" (node "reference_modifier" (sign "&")))
    let variadic ← found (sign "...")
    field "name" variableName
    opt (do sign "="; field "default_value" (r .expression))
    return if promoted then "property_promotion_parameter"
      else if variadic then "variadic_parameter"
      else "simple_parameter")

/-- The parameters of a function. -/
def parameters (r : Rule → Parser Unit) : Parser Unit :=
  node "formal_parameters" (do
    sign "("
    sepBy (parameter r) comma
    opt comma
    sign ")")

/-- A function without a name. -/
def anonymousFunction (r : Rule → Parser Unit) : Parser Unit :=
  nodeOf (do
    opt (field "attributes" (r .attributes))
    opt (field "static_modifier" (node "static_modifier" (keyword "static")))
    if ← found (keyword "fn") then
      opt (field "reference_modifier" (node "reference_modifier" (sign "&")))
      field "parameters" (r .parameters)
      returnType r
      sign "=>"
      field "body" (r .expression)
      return "arrow_function"
    keyword "function"
    opt (field "reference_modifier" (node "reference_modifier" (sign "&")))
    field "parameters" (r .parameters)
    opt (node "anonymous_function_use_clause" (do
      keyword "use"
      sign "("
      sepBy (variableName <|> node "by_ref" (do sign "&"; variableName)) comma
      opt comma
      sign ")"))
    returnType r
    field "body" (r .compound)
    return "anonymous_function")

/-! ## Operands -/

/-- One argument of a call. -/
def argument (r : Rule → Parser Unit) : Parser Unit :=
  node "argument" (oneOf [
    node "variadic_unpacking" (do sign "..."; opt (r .expression)),
    (do
      opt (do
        peek (do freeWord []; sign ":")
        field "name" anyName
        sign ":")
      opt (field "reference_modifier" (node "reference_modifier" (sign "&")))
      r .expression)])

/-- The arguments of a call. -/
def arguments (r : Rule → Parser Unit) : Parser Unit :=
  node "arguments" (do
    sign "("
    sepBy (argument r) comma
    opt comma
    sign ")")

/-- An element of an array. -/
def arrayElement (r : Rule → Parser Unit) : Parser Unit :=
  node "array_element_initializer" (oneOf [
    node "variadic_unpacking" (do sign "..."; r .expression),
    node "by_ref" (do sign "&"; r .expression),
    (do
      r .expression
      opt (do
        sign "=>"
        node "by_ref" (do sign "&"; r .expression) <|> r .expression))])

/-- The elements of an array. -/
def arrayElements (r : Rule → Parser Unit) : Parser Unit :=
  many (comma <|> arrayElement r)

/-- An array. -/
def array (r : Rule → Parser Unit) : Parser Unit :=
  node "array_creation_expression" (
    (do sign "["; arrayElements r; sign "]") <|>
    (do keyword "array"; sign "("; arrayElements r; sign ")"))

/-- Variables that an array is taken apart into. -/
def listLiteral (r : Rule → Parser Unit) : Nat → Parser Unit
  | 0 => fail
  | depth + 1 => node "list_literal" (do
    let target := listLiteral r depth <|> node "by_ref" (do sign "&"; r .variable) <|> r .variable
    let items := many (comma <|> (do
      opt (do
        r (.operand 1)
        sign "=>")
      target))
    (do sign "["; items; sign "]") <|> (do keyword "list"; sign "("; items; sign ")"))

/-- A class without a name. -/
def anonymousClass (r : Rule → Parser Unit) : Parser Unit :=
  node "anonymous_class" (do
    opt (field "attributes" (r .attributes))
    opt (node "readonly_modifier" (keyword "readonly"))
    keyword "class"
    opt (r .arguments)
    opt (node "base_clause" (do keyword "extends"; sepBy1 qualifiedName comma))
    opt (node "class_interface_clause" (do keyword "implements"; sepBy1 qualifiedName comma))
    field "body" (r .members))

/-- A variable whose name is computed. -/
def dynamicVariable (r : Rule → Parser Unit) : Parser Unit :=
  node "dynamic_variable_name" (do
    sign "$"
    r .variable <|> between openBrace closeBrace (r .expression))

/-- The class that `new` makes an object of. -/
def classReference (r : Rule → Parser Unit) : Parser Unit := oneOf [
  node "parenthesized_expression" (between "(" ")" (r .expression)),
  (do
    variableName <|> dynamicVariable r
    many (oneOf [
      extend "member_access_expression" "object" (do
        sign "->"
        field "name" (anyName <|> variableName)),
      extend "scoped_property_access_expression" "scope" (do
        sign "::"
        field "name" variableName),
      extend "subscript_expression" "" (do
        sign "["
        opt (r .expression)
        sign "]")])),
  (do
    peek (keyword "static")
    anyName),
  qualifiedName]

/-- The making of an object. -/
def creation (r : Rule → Parser Unit) : Parser Unit :=
  node "object_creation_expression" (do
    keyword "new"
    anonymousClass r <|> (do
      classReference r
      opt (r .arguments)))

/-- The types in a cast. -/
def castTypes : List String :=
  ["array", "binary", "bool", "boolean", "double", "int", "integer", "float", "object", "string",
    "unset", "real"]

/-- A choice of a value by comparing. -/
def matchExpression (r : Rule → Parser Unit) : Parser Unit :=
  node "match_expression" (do
    keyword "match"
    field "condition" (node "parenthesized_expression" (between "(" ")" (r .expression)))
    field "body" (node "match_block" (do
      sign openBrace
      sepBy (oneOf [
        node "match_default_expression" (do
          keyword "default"
          sign "=>"
          field "return_expression" (r .expression)),
        node "match_conditional_expression" (do
          field "conditional_expressions" (node "match_condition_list" (do
            sepBy1 (r .expression) comma
            opt comma))
          sign "=>"
          field "return_expression" (r .expression))]) comma
      opt comma
      sign closeBrace)))

/-- An operand that starts with a word. -/
def wordOperand (r : Rule → Parser Unit) (w : String) : Parser Unit := do
  let leading (kind : String) : Parser Unit := node kind (do keyword w; r .expression)
  match w with
  | "new" => creation r
  | "clone" => node "clone_expression" (do keyword "clone"; r (.operand 20))
  | "print" => leading "print_intrinsic"
  | "include" => leading "include_expression"
  | "include_once" => leading "include_once_expression"
  | "require" => leading "require_expression"
  | "require_once" => leading "require_once_expression"
  | "throw" => leading "throw_expression"
  | "yield" =>
    node "yield_expression" (do
      keyword "yield"
      opt ((do keyword "from"; r .expression) <|> arrayElement r))
  | "function" | "fn" => anonymousFunction r
  | "static" =>
    anonymousFunction r <|> node "relative_scope" (do keyword "static"; peek (sign "::"))
  | "array" => array r <|> qualifiedName
  | "list" => qualifiedName
  | "match" => matchExpression r <|> qualifiedName
  | "self" | "parent" =>
    node "relative_scope" (do keyword w; peek (sign "::")) <|> qualifiedName
  | "true" | "false" => node "boolean" (keyword w)
  | "null" => node "null" (keyword w)
  | _ => qualifiedName

/-- An operand without anything behind it. -/
def atom (r : Rule → Parser Unit) : Parser Unit := do
  let w ← nextKeyword
  if w != "" then wordOperand r w
  else
    match ← nextChar with
    | '$' => variableName <|> dynamicVariable r
    | '(' => node "parenthesized_expression" (between "(" ")" (r .expression))
    | '[' => array r
    | '"' => richString r
    | '\'' => plainString
    | '<' => rowsString r
    | '\\' => qualifiedName
    | '#' => anonymousFunction r
    | '\x60' => commandString r
    | _ => number

/-- The name of a member. -/
def memberName (r : Rule → Parser Unit) : Parser Unit := oneOf [
  field "name" anyName,
  field "name" variableName,
  field "name" (dynamicVariable r),
  between openBrace closeBrace (field "name" (r .expression))]

/-- What follows the mark of a member of an object. -/
def objectTrailer (r : Rule → Parser Unit) (mark called read : String) : Parser Unit :=
  extend called "object" (do
    sign mark
    memberName r
    field "arguments" (r .arguments)) <|>
  extend read "object" (do
    sign mark
    memberName r)

/-- Members, subscripts and calls behind an operand. -/
def trailer (r : Rule → Parser Unit) : Parser Unit := do
  match ← nextSign with
  | "->" => objectTrailer r "->" "member_call_expression" "member_access_expression"
  | "?->" =>
    objectTrailer r "?->" "nullsafe_member_call_expression" "nullsafe_member_access_expression"
  | "::" => oneOf [
      extend "scoped_call_expression" "scope" (do
        sign "::"
        memberName r
        field "arguments" (r .arguments)),
      extend "scoped_property_access_expression" "scope" (do
        sign "::"
        field "name" (variableName <|> dynamicVariable r)),
      extend "class_constant_access_expression" "" (do
        sign "::"
        anyName <|> between openBrace closeBrace (r .expression))]
  | "[" => extend "subscript_expression" "" (do
      sign "["
      opt (r .expression)
      sign "]")
  | "(" => extend "function_call_expression" "function" (field "arguments" (r .arguments))
  | _ => fail

/-- The signs that change a variable by an operation. -/
def augmentedSigns : List String :=
  ["**=", "*=", "/=", "%=", "+=", "-=", ".=", "<<=", ">>=", "&=", "^=", "|=", "??="]

/-- The kinds of nodes that can be assigned to. -/
def assignable : List String :=
  ["variable_name", "dynamic_variable_name", "member_access_expression", "subscript_expression",
    "nullsafe_member_access_expression", "scoped_property_access_expression",
    "function_call_expression", "member_call_expression", "scoped_call_expression"]

/-- An operand with everything that follows it. -/
def primary (r : Rule → Parser Unit) : Parser Unit := do
  atom r
  many (trailer r)

/-- What may follow a variable: an assignment or a step up or down. -/
def assignment (r : Rule → Parser Unit) : Parser Unit := do
  check (assignable.contains (← lastKind))
  let s ← nextSign
  match s with
  | "=" =>
    extend "reference_assignment_expression" "left" (do
      sign "="
      sign "&"
      field "right" (r (.operand 4))) <|>
    extend "assignment_expression" "left" (do
      sign "="
      field "right" (r (.operand 4)))
  | "++" | "--" => extend "update_expression" "argument" (sign s)
  | _ =>
    check (augmentedSigns.contains s)
    extend "augmented_assignment_expression" "left" (do
      sign s
      field "right" (r (.operand 4)))

/-- An assignment to the variables of a list. -/
def listAssignment (r : Rule → Parser Unit) : Parser Unit :=
  node "assignment_expression" (do
    field "left" (listLiteral r 64)
    sign "="
    no (sign "&")
    field "right" (r (.operand 4)))

/-- An operand with the signs before it. -/
def signed (r : Rule → Parser Unit) : Parser Unit := do
  let s ← nextSign
  match s with
  | "!" => node "unary_op_expression" (do sign s; field "argument" (r (.operand 15)))
  | "+" | "-" | "~" => node "unary_op_expression" (do sign s; field "argument" (r (.operand 17)))
  | "@" => node "error_suppression_expression" (do sign s; r (.operand 17))
  | "++" | "--" => node "update_expression" (do sign s; field "argument" (r .variable))
  | "&" => node "by_ref" (do sign s; r .variable)
  | "[" =>
    (do
      primary r
      no (sign "=")) <|> listAssignment r <|> (do
      primary r
      opt (assignment r))
  | "(" =>
    node "cast_expression" (do
      sign "("
      field "type" (node "cast_type" (keywordIn castTypes))
      sign ")"
      field "value" (r (.operand 17))) <|> (do
      primary r
      opt (assignment r))
  | _ =>
    (do
      peek (do keyword "list"; sign "(")
      listAssignment r) <|> (do
      primary r
      opt (assignment r))

/-- How closely a sign between two operands binds. -/
def binaryLevel (operator : String) : Nat :=
  match operator with
  | "or" => 1
  | "xor" => 2
  | "and" => 3
  | "??" => 5
  | "||" => 6
  | "&&" => 7
  | "|" => 8
  | "^" => 9
  | "&" => 10
  | "==" | "!=" | "===" | "!==" | "<>" | "<=>" => 11
  | "<" | "<=" | ">" | ">=" => 12
  | "<<" | ">>" => 13
  | "+" | "-" | "." => 14
  | "*" | "/" | "%" => 16
  | "instanceof" => 18
  | "**" => 19
  | _ => 0

/-- One more operator of at least the given level behind an operand. -/
def operatorStep (r : Rule → Parser Unit) (level : Nat) : Parser Unit := do
  let w ← nextKeyword
  let s ← nextSign
  let n := if w == "" then binaryLevel s else
    if ["or", "xor", "and", "instanceof"].contains w then binaryLevel w else 0
  if n != 0 then
    check (level ≤ n)
    extend "binary_expression" "left" (do
      if w == "" then sign s else keyword w
      field "right" (
        if n == 18 then classReference r
        else r (.operand (if n == 5 || n == 19 then n else n + 1))))
  else
    check (level ≤ 4 && s == "?")
    extend "conditional_expression" "condition" (do
      sign "?"
      opt (field "body" (r .expression))
      sign ":"
      field "alternative" (r (.operand 5)))

/-- An operand with all operators of at least the given level. -/
def operand (r : Rule → Parser Unit) (level : Nat) : Parser Unit := do
  if 20 ≤ level then primary r
  else
    signed r
    many (operatorStep r level)

end Php
end Syntax
end CodeAtlas

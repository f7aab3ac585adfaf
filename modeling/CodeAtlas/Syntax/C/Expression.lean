import CodeAtlas.Syntax.Parser
import CodeAtlas.Text.Word

/-!
# Expressions, types and declarators of C

Operators bind by levels, from `||` at the first to `*` at the tenth.  A declarator wraps the name
it declares: pointers stand in front of it, parameters and dimensions behind it.  The same shapes
without a name occur in parameters and in casts.
-/

namespace CodeAtlas
namespace Syntax
namespace C

open CodeAtlas.Syntax.Parser

/-- The end of a comment that runs to the end of its row; a backslash takes the next row in. -/
def rowCommentEnd (s : Source) : Nat → Nat → Nat
  | 0, i => i
  | fuel + 1, i =>
    match s.get? i with
    | none => i
    | some '\n' => i
    | some '\\' =>
      if s.charAt (i + 1) == '\r' && s.charAt (i + 2) == '\n' then rowCommentEnd s fuel (i + 3)
      else if i + 1 < s.size then rowCommentEnd s fuel (i + 2)
      else i + 1
    | some _ => rowCommentEnd s fuel (i + 1)

/-- Comments, and the joints of rows. -/
def comment? (s : Source) (i : Nat) : Option (String × Nat) :=
  if s.hasAt i ['/', '/'] then some ("comment", rowCommentEnd s s.size i)
  else if s.hasAt i ['/', '*'] then some ("comment", s.endOfFirst ['*', '/'] (i + 2))
  else if s.hasAt i ['\\', '\n'] then some ("", i + 2)
  else if s.hasAt i ['\\', '\r', '\n'] then some ("", i + 3)
  else none

/-- The lexical rules of C. -/
def lexis : Lexis where
  isBlank c := c == ' ' || c == '\t' || c == '\n' || c == '\r' || c == '\x0c' || c == '\x0b' ||
    c == '\uFEFF'
  comment? := comment?
  startsWord c := (Text.isWordChar c && !c.isDigit) || c == '$'
  continuesWord c := Text.isWordChar c || c == '$'
  punctuators := ["...", "<<=", ">>=", "->", "==", "!=", "<=", ">=", "&&", "||", "++", "--", "+=",
    "-=", "*=", "/=", "%=", "&=", "|=", "^=", "<<", ">>", openBrace, closeBrace, "(", ")", "[",
    "]", ";", ",", "<", ">", "+", "-", "*", "/", "%", "&", "|", "^", "!", "~", "?", ":", "=", ".",
    "#"].map String.toList

/-- The words that are never names. -/
def keywords : List String :=
  ["auto", "break", "case", "char", "const", "continue", "default", "do", "double", "else", "enum",
    "extern", "float", "for", "goto", "if", "inline", "int", "long", "register", "restrict",
    "return", "short", "signed", "sizeof", "static", "struct", "switch", "typedef", "union",
    "unsigned", "void", "volatile", "while", "_Atomic", "_Alignof", "_Generic", "offsetof",
    "__attribute__", "__extension__", "bool", "size_t", "ssize_t", "NULL", "nullptr", "true",
    "false", "TRUE", "FALSE"]

/-- What a declarator ends in. -/
inductive Leaf where
  | name
  | member
  | type
deriving DecidableEq

/-- The rules that refer to one another. -/
inductive Rule where
  | topItem
  | blockItem
  | memberItem
  | statement
  | compound
  | expressions
  | expression
  | operand (level : Nat)
  | initializer
  | specifier
  | typeDescriptor
  | declarator (leaf : Leaf)
  | abstractDeclarator
  | parameters
  | oldParameter
deriving DecidableEq

/-- A comma between items. -/
def comma : Parser Unit := sign ","

/-- A name. -/
def name : Parser Unit := node "identifier" (freeWord keywords)

/-- The name of a type. -/
def typeName : Parser Unit := node "type_identifier" (freeWord keywords)

/-! ## Specifiers -/

/-- The words for where a variable lives. -/
def storageWords : List String :=
  ["extern", "static", "auto", "register", "inline", "__inline", "__inline__", "__forceinline",
    "thread_local", "__thread"]

/-- The words that qualify a type. -/
def qualifierWords : List String :=
  ["const", "constexpr", "volatile", "restrict", "__restrict__", "__extension__", "_Atomic",
    "_Noreturn", "noreturn", "_Nonnull"]

/-- The words for the size of a number. -/
def sizeWords : List String := ["signed", "unsigned", "long", "short"]

/-- The types that are built in. -/
def builtInTypes : List String :=
  ["bool", "char", "int", "float", "double", "void", "size_t", "ssize_t", "ptrdiff_t", "intptr_t",
    "uintptr_t", "charptr_t", "nullptr_t", "max_align_t", "int8_t", "int16_t", "int32_t",
    "int64_t", "uint8_t", "uint16_t", "uint32_t", "uint64_t", "char8_t", "char16_t", "char32_t",
    "char64_t"]

/-- An attribute of a declaration. -/
def attributeList (r : Rule → Parser Unit) : Parser Unit :=
  node "attribute_specifier" (do
    wordIn ["__attribute__", "__attribute"]
    sign "("
    node "argument_list" (do
      sign "("
      sepBy (r .expression) comma
      sign ")")
    sign ")")

/-- A qualifier of a type. -/
def qualifier : Parser Unit := node "type_qualifier" (wordIn qualifierWords)

/-- What may stand around the type in a declaration. -/
def modifier (r : Rule → Parser Unit) : Parser Unit := oneOf [
  node "storage_class_specifier" (wordIn storageWords),
  qualifier,
  attributeList r]

/-- The members of a structure between braces. -/
def memberList (r : Rule → Parser Unit) : Parser Unit :=
  node "field_declaration_list" (do
    sign openBrace
    many (r .memberItem)
    sign closeBrace)

/-- A structure or a union. -/
def aggregate (r : Rule → Parser Unit) (kind w : String) : Parser Unit :=
  node kind (do
    word w
    many (attributeList r)
    field "body" (memberList r) <|> (do
      field "name" typeName
      opt (field "body" (memberList r)))
    many (attributeList r))

/-- An enumeration. -/
def enumeration (r : Rule → Parser Unit) : Parser Unit := do
  let body := field "body" (node "enumerator_list" (do
    sign openBrace
    sepBy (node "enumerator" (do
      field "name" name
      opt (do sign "="; field "value" (r .expression)))) comma
    opt comma
    sign closeBrace))
  node "enum_specifier" (do
    word "enum"
    body <|> (do
      field "name" typeName
      opt (do sign ":"; field "underlying_type" (node "primitive_type" (wordIn builtInTypes)))
      opt body)
    many (attributeList r))

/-- A type without anything around it. -/
def specifier (r : Rule → Parser Unit) : Parser Unit := do
  let w ← nextWord
  match w with
  | "struct" => aggregate r "struct_specifier" w
  | "union" => aggregate r "union_specifier" w
  | "enum" => enumeration r
  | _ =>
    if builtInTypes.contains w then
      if ← ahead (do word w; many qualifier; wordIn sizeWords) then
        node "sized_type_specifier" (do
          field "type" (node "primitive_type" (word w))
          many1 (do many qualifier; wordIn sizeWords))
      else node "primitive_type" (word w)
    else if sizeWords.contains w then
      node "sized_type_specifier" (do
        many1 (wordIn sizeWords)
        many qualifier
        opt (do
          field "type" (node "primitive_type" (wordIn builtInTypes))
          many (wordIn sizeWords)))
    else typeName

/-- A type with everything around it. -/
def specifiers (r : Rule → Parser Unit) : Parser Unit := do
  many (modifier r)
  field "type" (r .specifier)
  many (modifier r)

/-! ## Declarators -/

/-- What is declared. -/
def leaf : Leaf → Parser Unit
  | .name => name
  | .member => node "field_identifier" (freeWord keywords)
  | .type =>
    typeName <|> node "primitive_type" (wordIn builtInTypes) <|>
      node "type_identifier" (wordIn sizeWords)

/-- The dimension of an array. -/
def dimension (r : Rule → Parser Unit) : Parser Unit := do
  sign "["
  many (qualifier <|> word "static")
  opt (field "size" ((do sign "*"; peek (sign "]")) <|> r .expression))
  sign "]"

/-- A declarator. -/
def declarator (r : Rule → Parser Unit) (l : Leaf) : Parser Unit := do
  if ← ahead (sign "*") then
    node "pointer_declarator" (do
      sign "*"
      many (qualifier <|> attributeList r)
      field "declarator" (r (.declarator l)))
  else
    (do
      peek (sign "(")
      node "parenthesized_declarator" (do
        sign "("
        r (.declarator l)
        sign ")")) <|> leaf l
    many (oneOf [
      extend "function_declarator" "declarator" (do
        field "parameters" (r .parameters)
        many (attributeList r)),
      extend "array_declarator" "declarator" (dimension r)])
    many (extend "attributed_declarator" "" (many1 (attributeList r)))

/-- A declarator without a name. -/
def abstractDeclarator (r : Rule → Parser Unit) : Parser Unit := do
  if ← ahead (sign "*") then
    node "abstract_pointer_declarator" (do
      sign "*"
      many qualifier
      opt (field "declarator" (r .abstractDeclarator)))
  else
    oneOf [
      node "abstract_parenthesized_declarator" (do
        sign "("
        r .abstractDeclarator
        sign ")"),
      node "abstract_function_declarator" (field "parameters" (r .parameters)),
      node "abstract_array_declarator" (dimension r)]
    many (oneOf [
      extend "abstract_function_declarator" "declarator" (field "parameters" (r .parameters)),
      extend "abstract_array_declarator" "declarator" (dimension r)])

/-- The parameters of a function. -/
def parameters (r : Rule → Parser Unit) : Parser Unit :=
  node "parameter_list" (do
    sign "("
    sepBy (node "variadic_parameter" (sign "...") <|> node "parameter_declaration" (do
      specifiers r
      opt (field "declarator" (oneOf [
        (do r (.declarator .name); no (sign "(")),
        r .abstractDeclarator]))
      many (attributeList r))) comma
    sign ")")

/-- A type in a cast or behind `sizeof`. -/
def typeDescriptor (r : Rule → Parser Unit) : Parser Unit :=
  node "type_descriptor" (do
    many qualifier
    field "type" (r .specifier)
    many qualifier
    opt (field "declarator" (r .abstractDeclarator)))

/-! ## Literals -/

/-- The end of a number at an index. -/
def numberEnd? (s : Source) (i : Nat) : Option Nat :=
  let c := s.charAt i
  let startsFraction := c == '.' && (s.charAt (i + 1)).isDigit
  if !c.isDigit && !startsFraction then none
  else
    let body (d : Char) : Bool := d.isAlphanum || d == '.' || d == '\''
    let isHex := c == '0' && (s.charAt (i + 1)).toLower == 'x'
    let j := s.scanWhile body i
    let before := (s.charAt (j - 1)).toLower
    if ((before == 'e' && !isHex) || (before == 'p' && isHex)) &&
        (s.charAt j == '+' || s.charAt j == '-') then
      some (s.scanWhile body (j + 1))
    else some j

/-- A number. -/
def number : Parser Unit := node "number_literal" (lexeme numberEnd?)

/-- Reads up to an index, as a node of its own. -/
def piece (kind : String) (first stop : Nat) : Parser Unit := fun _ s =>
  .done () { s with pos := stop, last := stop, out := Tree.node kind "" first stop [] :: s.out }

/-- Reads a quoted text up to its closing quote; runs between escapes are pieces of a kind. -/
def quotedBody (quote : Char) (kind : String) : Nat → Parser Unit
  | 0 => fail
  | fuel + 1 => do
    let i ← position
    let s ← source
    match s.get? i with
    | none => fail
    | some c =>
      if c == quote then jumpTo (i + 1)
      else if c == '\n' then fail
      else if c == '\\' then
        piece "escape_sequence" i (i + 2)
        quotedBody quote kind fuel
      else
        let j := s.scanWhile (fun d => d != quote && d != '\\' && d != '\n') i
        piece kind i j
        quotedBody quote kind fuel

/-- A quoted text with its encoding prefix. -/
def quoted (quote : Char) (kind inner : String) : Parser Unit := do
  let i ← here
  let s ← source
  let j := s.scanWhile Char.isAlphanum i
  let encoding := String.ofList (s.slice i j)
  check (["", "L", "u", "U", "u8"].contains encoding && s.charAt j == quote)
  node kind (do
    consumeTo (j + 1)
    quotedBody quote inner (s.size + 1))

/-- A string. -/
def string : Parser Unit := quoted '"' "string_literal" "string_content"

/-- One string, or several that are joined by standing side by side. -/
def strings : Parser Unit := do
  string
  if ← ahead string then
    extend "concatenated_string" "" (many1 (string <|> name))

/-! ## Operands -/

/-- The arguments of a call. -/
def arguments (r : Rule → Parser Unit) : Parser Unit :=
  node "argument_list" (do
    sign "("
    sepBy (r .expression <|> r .compound) comma
    sign ")")

/-- The next lexemes can only be a type. -/
def typeAhead : Parser Bool := do
  let w ← nextWord
  return ["struct", "union", "enum"].contains w || builtInTypes.contains w ||
    sizeWords.contains w || qualifierWords.contains w

/-- A value of a type between braces. -/
def initializerList (r : Rule → Parser Unit) : Parser Unit :=
  node "initializer_list" (do
    sign openBrace
    sepBy ((node "initializer_pair" (do
      many1 (field "designator" (oneOf [
        node "field_designator" (do sign "."; node "field_identifier" (freeWord keywords)),
        node "subscript_designator" (do sign "["; r .expression; sign "]"),
        node "subscript_range_designator" (do
          sign "["
          r .expression
          sign "..."
          r .expression
          sign "]")]))
      sign "="
      field "value" (r .initializer))) <|> r .initializer) comma
    opt comma
    sign closeBrace)

/-- A value turned into another type, or a value of a type between braces. -/
def cast (r : Rule → Parser Unit) : Parser Unit := do
  let known ← ahead (do sign "("; check (← typeAhead))
  nodeOf (do
    sign "("
    field "type" (r .typeDescriptor)
    sign ")"
    if ← ahead (sign openBrace) then
      field "value" (initializerList r)
      return "compound_literal_expression"
    if !known then
      let w ← nextWord
      let c ← nextChar
      check (w != "" || c == '"' || c == '\'' || c.isDigit || c == '!' || c == '~')
    field "value" (r (.operand 11))
    return "cast_expression")

/-- The question in a directive whether a macro is defined. -/
def definedTest : Parser Unit := fun e s =>
  let p : Parser Unit := node "preproc_defined" (do
    word "defined"
    between "(" ")" name <|> name)
  if s.rows then p e s else .fail s.far

/-- Instructions of the machine. -/
def assembly (r : Rule → Parser Unit) : Parser Unit :=
  node "gnu_asm_expression" (do
    wordIn ["asm", "__asm__", "__asm"]
    many (node "gnu_asm_qualifier" (wordIn ["volatile", "__volatile__", "inline", "goto"]))
    sign "("
    field "assembly_code" strings
    many (do
      sign ":"
      sepBy (do
        opt (between "[" "]" name)
        string <|> name
        opt (between "(" ")" (r .expression))) comma)
    sign ")")

/-- A choice of a value by the type of another one. -/
def genericExpression (r : Rule → Parser Unit) : Parser Unit :=
  node "generic_expression" (do
    word "_Generic"
    sign "("
    r .expression
    comma
    sepBy1 (do
      word "default" <|> r .typeDescriptor
      sign ":"
      r .expression) comma
    sign ")")

/-- The size of a type, or of the type of an expression. -/
def sizeOf (r : Rule → Parser Unit) : Parser Unit :=
  node "sizeof_expression" (do
    word "sizeof"
    (do
      peek (do sign "("; check (← typeAhead))
      sign "("
      field "type" (r .typeDescriptor)
      sign ")") <|> field "value" (r (.operand 11)))

/-- An operand without anything behind it. -/
def atom (r : Rule → Parser Unit) : Parser Unit := do
  let w ← nextWord
  match w with
  | "" =>
    match ← nextChar with
    | '(' => oneOf [
        cast r,
        node "parenthesized_expression" (between "(" ")" (r .expressions)),
        node "parenthesized_expression" (between "(" ")" (r .compound))]
    | '"' => strings
    | '\'' => quoted '\'' "char_literal" "character"
    | _ => number
  | "NULL" | "nullptr" => node "null" (word w)
  | "true" | "TRUE" => node "true" (word w)
  | "false" | "FALSE" => node "false" (word w)
  | "sizeof" => sizeOf r
  | "offsetof" => node "offsetof_expression" (do
      word "offsetof"
      sign "("
      field "type" (r .typeDescriptor)
      comma
      field "member" (node "field_identifier" (freeWord []))
      sign ")")
  | "__alignof__" | "__alignof" | "_alignof" | "alignof" | "_Alignof" =>
    node "alignof_expression" (do
      word w
      between "(" ")" (field "type" (r .typeDescriptor)))
  | "_Generic" => genericExpression r
  | "asm" | "__asm__" | "__asm" => assembly r
  | "defined" => definedTest <|> name
  | _ => oneOf [strings, quoted '\'' "char_literal" "character", name]

/-- Members, subscripts and calls behind an operand. -/
def trailer (r : Rule → Parser Unit) : Parser Unit := do
  let s ← nextSign
  match s with
  | "." | "->" =>
    extend "field_expression" "argument" (do
      sign s
      field "field" (node "field_identifier" (freeWord [])))
  | "[" =>
    extend "subscript_expression" "argument" (do
      sign "["
      field "index" (r .expressions)
      sign "]")
  | "(" => extend "call_expression" "function" (field "arguments" (arguments r))
  | "++" | "--" => extend "update_expression" "argument" (sign s)
  | _ => fail

/-- An operand with the signs before and behind it. -/
def signed (r : Rule → Parser Unit) : Parser Unit := do
  let s ← nextSign
  match s with
  | "!" | "~" | "+" | "-" =>
    node "unary_expression" (do sign s; field "argument" (r (.operand 11)))
  | "*" | "&" => node "pointer_expression" (do sign s; field "argument" (r (.operand 11)))
  | "++" | "--" => node "update_expression" (do sign s; field "argument" (r (.operand 11)))
  | _ =>
    atom r
    many (trailer r)

/-- How closely a sign between two operands binds. -/
def binaryLevel (operator : String) : Nat :=
  match operator with
  | "||" => 1
  | "&&" => 2
  | "|" => 3
  | "^" => 4
  | "&" => 5
  | "==" | "!=" => 6
  | "<" | "<=" | ">" | ">=" => 7
  | "<<" | ">>" => 8
  | "+" | "-" => 9
  | "*" | "/" | "%" => 10
  | _ => 0

/-- An operand with all operators of at least the given level. -/
def operand (r : Rule → Parser Unit) (level : Nat) : Parser Unit := do
  signed r
  if level ≤ 10 then
    many (do
      let operator ← nextSign
      let n := binaryLevel operator
      check (n != 0 && level ≤ n)
      extend "binary_expression" "left" (do
        sign operator
        field "right" (r (.operand (n + 1)))))

/-- The signs that assign. -/
def assignSigns : List String :=
  ["=", "*=", "/=", "%=", "+=", "-=", "<<=", ">>=", "&=", "^=", "|="]

/-- The kinds of nodes that can be assigned to. -/
def assignable : List String :=
  ["identifier", "call_expression", "field_expression", "pointer_expression",
    "subscript_expression", "parenthesized_expression"]

/-- An expression without commas. -/
def expression (r : Rule → Parser Unit) : Parser Unit := do
  operand r 1
  match ← nextSign with
  | "?" =>
    extend "conditional_expression" "condition" (do
      sign "?"
      opt (field "consequence" (r .expressions))
      sign ":"
      field "alternative" (r .expression))
  | s =>
    if assignSigns.contains s && assignable.contains (← lastKind) then
      extend "assignment_expression" "left" (do
        sign s
        field "right" (r .expression))

/-- An expression, or several that are joined by commas. -/
def expressions (r : Rule → Parser Unit) : Parser Unit := do
  r .expression
  opt (extend "comma_expression" "left" (do
    comma
    field "right" (r .expressions)))

/-- The first value of a variable. -/
def initializer (r : Rule → Parser Unit) : Parser Unit := do
  if ← ahead (sign openBrace) then initializerList r else r .expression

end C
end Syntax
end CodeAtlas

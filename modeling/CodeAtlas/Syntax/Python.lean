import CodeAtlas.Syntax.Parser
import CodeAtlas.Text.Word

/-!
# Python

The grammar of Python sources.  Rows matter: a simple statement ends with its row, and a block is
a run of rows with at least its indentation.  A block starts at its first statement, after any
comments in front of it, and ends with its last statement, with a comment on the row of that
statement, or with the comments below it that are indented like the block.
-/

namespace CodeAtlas
namespace Syntax
namespace Python

open CodeAtlas.Syntax.Parser

/-- A comment runs to the end of its row; a backslash joins a row to the next one. -/
def comment? (s : Source) (i : Nat) : Option (String × Nat) :=
  match s.charAt i with
  | '#' => some ("comment", s.endOfRow i)
  | '\\' =>
    if s.charAt (i + 1) == '\n' then some ("line_continuation", i + 2)
    else if s.charAt (i + 1) == '\r' && s.charAt (i + 2) == '\n' then
      some ("line_continuation", i + 3)
    else none
  | _ => none

/-- The lexical rules of Python. -/
def lexis : Lexis where
  isBlank c := c == ' ' || c == '\t' || c == '\n' || c == '\r' || c == '\x0c' || c == '\uFEFF'
  comment? := comment?
  startsWord c := Text.isWordChar c && !c.isDigit
  continuesWord := Text.isWordChar
  punctuators := ["**=", "//=", ">>=", "<<=", "...", "**", "//", ">>", "<<", "<=", ">=", "==",
    "!=", "<>", "->", ":=", "+=", "-=", "*=", "/=", "%=", "&=", "|=", "^=", "@=", "(", ")", "[",
    "]", openBrace, closeBrace, ",", ":", ".", ";", "@", "=", "+", "-", "*", "/", "%", "&", "|", "^", "~",
    "<", ">"].map String.toList

/-- The words that are never names. -/
def keywords : List String :=
  ["False", "None", "True", "and", "as", "assert", "break", "class", "continue", "def", "del",
    "elif", "else", "except", "finally", "for", "from", "global", "if", "import", "in", "is",
    "lambda", "nonlocal", "not", "or", "pass", "raise", "return", "try", "while", "with", "yield"]

/-- The rules that refer to one another. -/
inductive Rule where
  | statement
  | expression
  | operand (level : Nat)
  | primary
  | target
  | targets
  | type
  | casePattern
deriving DecidableEq

/-! ## Rows and blocks -/

/-- The next row with code on it, from a row end on: where its code starts, its indentation, and
the comments on rows of their own before it, each with its indentation. -/
def nextCode (e : Env) : Nat → Nat → Nat → List (Tree × Nat) → Nat × Nat × List (Tree × Nat)
  | 0, i, indent, found => (i, indent, found.reverse)
  | fuel + 1, i, indent, found =>
    if e.repair.dropped.contains i then nextCode e fuel (e.lexemeEnd i) indent found
    else
      match e.source.get? i with
      | none => (i, 0, found.reverse)
      | some c =>
        if c == '\n' || c == '\r' || c == '\x0c' then nextCode e fuel (i + 1) 0 found
        else if c == ' ' then nextCode e fuel (i + 1) (indent + 1) found
        else if c == '\t' then nextCode e fuel (i + 1) (indent + 8) found
        else if c == '\uFEFF' then nextCode e fuel (i + 1) indent found
        else
          match comment? e.source i with
          | some (kind, j) =>
            if j ≤ i then (i, indent, found.reverse)
            else if kind == "comment" then
              nextCode e fuel j indent ((Tree.node kind "" i j [], indent) :: found)
            else nextCode e fuel j indent found
          | none => (i, indent, found.reverse)

/-- The next row with code on it, seen from a state. -/
def codeAhead (e : Env) (s : State) : Nat × Nat × List (Tree × Nat) :=
  nextCode e (e.source.size + 1) s.pos 0 []

/-- Goes to the next row with code if it belongs to the block being read. -/
def enterRow : Parser Unit := fun e s =>
  let (i, indent, found) := codeAhead e s
  if i < e.source.size && s.indent ≤ indent then
    .done () { s with pos := i, comments := (found.map Prod.fst).reverse ++ s.comments }
  else .fail s.far

/-- Ends a block: the comments below it that are indented like it belong to it. -/
def closeBlock : Parser Unit := fun e s =>
  let (_, _, found) := codeAhead e s
  let own := (found.takeWhile fun c => s.indent ≤ c.2).map Prod.fst
  match own.getLast? with
  | none => .done () s
  | some c =>
    .done () { s with pos := c.stop, last := c.stop, comments := own.reverse ++ s.comments }

/-- Ends a row: only a comment may follow on it. -/
def endRow : Parser Unit := fun e s =>
  let (i, found) := s.ahead e
  if i ≥ e.source.size || e.source.charAt i == '\n' then
    let last := ((found.filter (·.kind == "comment")).head?.map Tree.stop).getD s.last
    .done () { s with pos := i, last := last, comments := found ++ s.comments }
  else .fail (max s.far i)

/-- Reads with a parser inside a block of another indentation. -/
def indented (indent : Nat) (p : Parser Unit) : Parser Unit := fun e s =>
  match p e { s with indent := indent } with
  | .fail far => .fail far
  | .done _ s' => .done () { s' with indent := s.indent }

/-- A statement followed by the other statements of its block. -/
def blockRows (r : Rule → Parser Unit) : Parser Unit := do
  enterRow
  node "block" (do
    r .statement
    many (do enterRow; r .statement)
    closeBlock)

/-- The block on the rows below, if they are indented more than the block being read. -/
def innerBlock (r : Rule → Parser Unit) : Parser Unit := fun e s =>
  let (i, indent, _) := codeAhead e s
  if i < e.source.size && s.indent < indent then indented indent (blockRows r) e s
  else node "block" (Parser.pure ()) e s

/-! ## Names, numbers and strings -/

/-- A name. -/
def name : Parser Unit := node "identifier" (freeWord keywords)

/-- Names joined by dots. -/
def dottedName : Parser Unit := node "dotted_name" (sepBy1 name (sign "."))

/-- The end of a number at an index. -/
def numberEnd? (s : Source) (i : Nat) : Option Nat :=
  let c := s.charAt i
  let startsFraction := c == '.' && (s.charAt (i + 1)).isDigit
  if !c.isDigit && !startsFraction then none
  else
    let body (d : Char) : Bool := d.isAlphanum || d == '_' || d == '.'
    let j := s.scanWhile body i
    let before := s.charAt (j - 1)
    let isHex := c == '0' && (s.charAt (i + 1)).toLower == 'x'
    if (before == 'e' || before == 'E') && !isHex && (s.charAt j == '+' || s.charAt j == '-') then
      some (s.scanWhile body (j + 1))
    else some j

/-- A number. -/
def number : Parser Unit := do
  let i ← here
  let s ← source
  match numberEnd? s i with
  | none => fail
  | some j =>
    let text := s.slice i j
    let isFloat := text.contains '.' ||
      (text.contains 'e' && !(text.take 2 == ['0', 'x'] || text.take 2 == ['0', 'X']))
    node (if isFloat then "float" else "integer") (consumeTo j)

/-- Reads a replacement field of a formatted string. -/
def interpolation (r : Rule → Parser Unit) (specification : Parser Unit) : Parser Unit :=
  node "interpolation" (acrossRows (do
    exactly openBrace
    field "expression" (r .expression)
    many (do sign ","; field "expression" (r .expression))
    opt (sign "=")
    opt (node "type_conversion" (do exactly "!"; freeWord []))
    opt specification
    exactly closeBrace))

/-- Reads the format behind the colon of a replacement field. -/
def formatSpecification (r : Rule → Parser Unit) : Nat → Parser Unit
  | 0 => fail
  | depth + 1 => node "format_specifier" (do
    exactly ":"
    many (do
      let i ← position
      let s ← source
      match s.get? i with
      | some '}' => fail
      | some '{' => interpolation r (formatSpecification r depth)
      | some '\n' => fail
      | some _ => jumpTo (i + 1)
      | none => fail))

/-- Reads a string up to its closing quotes. -/
def stringBody (r : Rule → Parser Unit) (quotes : List Char) (formatted : Bool) :
    Nat → Parser Unit
  | 0 => fail
  | fuel + 1 => do
    let i ← position
    let s ← source
    if s.hasAt i quotes then jumpTo (i + quotes.length)
    else
      match s.get? i with
      | none => fail
      | some c =>
        if c == '\\' then
          jumpTo (i + 2)
          stringBody r quotes formatted fuel
        else if formatted && c == '{' then
          if s.charAt (i + 1) == '{' then
            jumpTo (i + 2)
            stringBody r quotes formatted fuel
          else
            interpolation r (formatSpecification r 3)
            stringBody r quotes formatted fuel
        else if c == '\n' && quotes.length == 1 then fail
        else
          jumpTo (i + 1)
          stringBody r quotes formatted fuel

/-- A string with its prefix letters and quotes. -/
def string (r : Rule → Parser Unit) : Parser Unit := do
  let i ← here
  let s ← source
  let j := s.scanWhile (fun c => "rRbBfFuUtT".toList.contains c) i
  let quote := s.charAt j
  if quote != '"' && quote != '\'' then fail
  else
    let formatted := (s.slice i j).any (fun c => c == 'f' || c == 'F' || c == 't' || c == 'T')
    let quotes := if s.hasAt j [quote, quote, quote] then [quote, quote, quote] else [quote]
    node "string" (do
      consumeTo (j + quotes.length)
      stringBody r quotes formatted (s.size + 1))

/-- One string, or several that are joined by standing side by side. -/
def strings (r : Rule → Parser Unit) : Parser Unit := do
  string r
  if ← ahead (string r) then extend "concatenated_string" "" (many1 (string r))

/-! ## Expressions -/

/-- An expression, or one that is spread out by a star. -/
def starExpression (r : Rule → Parser Unit) : Parser Unit :=
  (node "list_splat" (do sign "*"; r (.operand 5))) <|> r .expression

/-- A comma between items. -/
def comma : Parser Unit := sign ","

/-- A `yield` expression. -/
def yieldExpression (r : Rule → Parser Unit) : Parser Unit :=
  node "yield" (do
    word "yield"
    (do word "from"; r .expression) <|>
      opt (do sepBy1 (starExpression r) comma; opt comma))

/-- An expression, or several that are joined by commas. -/
def expressions (r : Rule → Parser Unit) : Parser Unit := do
  starExpression r
  if ← ahead comma then
    extend "expression_list" "" (do
      many (do comma; starExpression r)
      opt comma)

/-- The parameters of an anonymous function. -/
def lambdaParameters (r : Rule → Parser Unit) : Parser Unit :=
  node "lambda_parameters" (do
    sepBy1 (oneOf [
      node "dictionary_splat_pattern" (do sign "**"; name),
      node "list_splat_pattern" (do sign "*"; name),
      node "keyword_separator" (sign "*"),
      node "positional_separator" (sign "/"),
      node "default_parameter" (do
        field "name" name; sign "="; field "value" (r .expression)),
      name]) comma
    opt comma)

/-- An anonymous function. -/
def lambda (r : Rule → Parser Unit) : Parser Unit :=
  node "lambda" (do
    word "lambda"
    opt (field "parameters" (lambdaParameters r))
    sign ":"
    field "body" (r .expression))

/-- The `for` and `if` parts of a comprehension. -/
def comprehensionClauses (r : Rule → Parser Unit) : Parser Unit := do
  let forIn := node "for_in_clause" (do
    opt (word "async")
    word "for"
    field "left" (r .targets)
    word "in"
    field "right" (r (.operand 1))
    many (do comma; field "right" (r (.operand 1))))
  forIn
  many (forIn <|> node "if_clause" (do word "if"; r .expression))

/-- The next lexeme starts a comprehension clause. -/
def comprehends : Parser Bool := ahead (do opt (word "async"); word "for")

/-- More items behind commas, and perhaps a last comma. -/
def moreItems (item : Parser Unit) : Parser Unit := do
  many (do comma; item)
  opt comma

/-- What stands between parentheses. -/
def parentheses (r : Rule → Parser Unit) : Parser Unit :=
  acrossRows (nodeOf (do
    sign "("
    if ← found (sign ")") then return "tuple"
    starExpression r <|> yieldExpression r
    if ← comprehends then
      lastField "body"
      comprehensionClauses r
      sign ")"
      return "generator_expression"
    if ← ahead comma then
      moreItems (starExpression r <|> yieldExpression r)
      sign ")"
      return "tuple"
    sign ")"
    return "parenthesized_expression"))

/-- What stands between square brackets. -/
def brackets (r : Rule → Parser Unit) : Parser Unit :=
  acrossRows (nodeOf (do
    sign "["
    if ← found (sign "]") then return "list"
    starExpression r <|> yieldExpression r
    if ← comprehends then
      lastField "body"
      comprehensionClauses r
      sign "]"
      return "list_comprehension"
    moreItems (starExpression r <|> yieldExpression r)
    sign "]"
    return "list"))

/-- A key with its value. -/
def pair (r : Rule → Parser Unit) : Parser Unit :=
  node "pair" (do field "key" (r .expression); sign ":"; field "value" (r .expression))

/-- An entry of a dictionary. -/
def entry (r : Rule → Parser Unit) : Parser Unit :=
  node "dictionary_splat" (do sign "**"; r (.operand 5)) <|> pair r

/-- What stands between braces. -/
def braces (r : Rule → Parser Unit) : Parser Unit :=
  acrossRows (nodeOf (do
    sign openBrace
    if ← found (sign closeBrace) then return "dictionary"
    if ← ahead (sign "**") then
      entry r
      moreItems (entry r)
      sign closeBrace
      return "dictionary"
    starExpression r
    if ← ahead (sign ":") then
      extend "pair" "key" (do sign ":"; field "value" (r .expression))
      if ← comprehends then
        lastField "body"
        comprehensionClauses r
        sign closeBrace
        return "dictionary_comprehension"
      moreItems (entry r)
      sign closeBrace
      return "dictionary"
    if ← comprehends then
      lastField "body"
      comprehensionClauses r
      sign closeBrace
      return "set_comprehension"
    moreItems (starExpression r)
    sign closeBrace
    return "set"))

/-- One argument of a call. -/
def argument (r : Rule → Parser Unit) : Parser Unit := oneOf [
  node "dictionary_splat" (do sign "**"; r .expression),
  node "list_splat" (do sign "*"; r .expression),
  node "keyword_argument" (do
    field "name" name; sign "="; field "value" (r .expression)),
  r .expression]

/-- The arguments of a call. -/
def arguments (r : Rule → Parser Unit) : Parser Unit :=
  acrossRows (nodeOf (do
    sign "("
    if ← found (sign ")") then return "argument_list"
    argument r
    if ← comprehends then
      lastField "body"
      comprehensionClauses r
      sign ")"
      return "generator_expression"
    moreItems (argument r)
    sign ")"
    return "argument_list"))

/-- A subscript, possibly a slice. -/
def subscript (r : Rule → Parser Unit) : Parser Unit := do
  let bounds := do
    sign ":"
    opt (r .expression)
    opt (do sign ":"; opt (r .expression))
  if ← ahead (sign ":") then node "slice" bounds
  else
    starExpression r
    if ← ahead (sign ":") then extend "slice" "" bounds

/-- An expression that no operator splits. -/
def atom (r : Rule → Parser Unit) : Parser Unit := do
  match ← nextChar with
  | '(' => parentheses r
  | '[' => brackets r
  | '{' => braces r
  | _ => oneOf [
      strings r,
      number,
      node "ellipsis" (sign "..."),
      node "true" (word "True"),
      node "false" (word "False"),
      node "none" (word "None"),
      name]

/-- Members, subscripts and calls behind an expression. -/
def trailer (r : Rule → Parser Unit) : Parser Unit := do
  match ← nextSign with
  | "." => extend "attribute" "object" (do sign "."; field "attribute" name)
  | "(" => extend "call" "function" (field "arguments" (arguments r))
  | "[" => extend "subscript" "value" (acrossRows (do
      sign "["
      sepBy1 (field "subscript" (subscript r)) comma
      opt comma
      sign "]"))
  | _ => fail

/-- An atom with everything that follows it. -/
def primary (r : Rule → Parser Unit) : Parser Unit := do
  atom r
  many (trailer r)

/-- An operand with the signs in front of it; a power binds closer. -/
def signed (r : Rule → Parser Unit) : Parser Unit := oneOf [
  node "unary_operator" (do signIn ["+", "-", "~"]; field "argument" (r (.operand 11))),
  node "await" (do word "await"; r .primary),
  r .primary]

/-- How closely a binary operator binds. -/
def binaryLevel (operator : String) : Nat :=
  match operator with
  | "|" => 5
  | "^" => 6
  | "&" => 7
  | "<<" | ">>" => 8
  | "+" | "-" => 9
  | "*" | "/" | "//" | "%" | "@" => 10
  | "**" => 12
  | _ => 0

/-- A comparison sign. -/
def comparison : Parser Unit := oneOf [
  signIn ["<", "<=", "==", "!=", ">=", ">", "<>"],
  word "in",
  (do word "not"; word "in"),
  (do word "is"; word "not"),
  word "is"]

/-- One more operator of at least the given level behind an operand. -/
def operatorStep (r : Rule → Parser Unit) (level : Nat) : Parser Unit := do
  let operator ← nextSign
  let n := binaryLevel operator
  if n != 0 then
    check (level ≤ n)
    extend "binary_operator" "left" (do
      sign operator
      field "right" (r (.operand (if n == 12 then 11 else n + 1))))
  else oneOf [
    (do
      check (level ≤ 4)
      extend "comparison_operator" "" (many1 (do comparison; r (.operand 5)))),
    (do
      check (level ≤ 2)
      extend "boolean_operator" "left" (do word "and"; field "right" (r (.operand 3)))),
    (do
      check (level ≤ 1)
      extend "boolean_operator" "left" (do word "or"; field "right" (r (.operand 2))))]

/-- An operand with all operators of at least the given level. -/
def operand (r : Rule → Parser Unit) (level : Nat) : Parser Unit := do
  (do
    check (level ≤ 3)
    node "not_operator" (do word "not"; field "argument" (r (.operand 3)))) <|> signed r
  many (operatorStep r level)

/-- An expression. -/
def expression (r : Rule → Parser Unit) : Parser Unit := oneOf [
  lambda r,
  node "named_expression" (do
    field "name" name; sign ":="; field "value" (r .expression)),
  (do
    r (.operand 1)
    opt (extend "conditional_expression" "" (do
      word "if"; r (.operand 1); word "else"; r .expression)))]

/-! ## Types and targets -/

/-- A type with its arguments in brackets. -/
def genericType (r : Rule → Parser Unit) : Parser Unit :=
  node "generic_type" (do
    name
    peek (sign "[")
    node "type_parameter" (acrossRows (do
      sign "["; sepBy1 (r .type) comma; opt comma; sign "]")))

/-- A type annotation. -/
def type (r : Rule → Parser Unit) : Parser Unit := do
  node "type" (oneOf [
    node "splat_type" (do signIn ["*", "**"]; name),
    (do
      genericType r
      no (signIn [".", "|", "(", "["])),
    (do
      genericType r
      no (signIn [".", "(", "["])
      extend "union_type" "" (many1 (do sign "|"; r .type))),
    r .expression])

/-- Something that can be assigned to. -/
def simpleTarget (r : Rule → Parser Unit) : Parser Unit := oneOf [
  node "list_splat_pattern" (do sign "*"; r .target),
  (do
    r .primary
    let kind ← lastKind
    check (["identifier", "attribute", "subscript"].contains kind)),
  node "tuple_pattern" (acrossRows (do
    sign "("; sepBy (r .target) comma; opt comma; sign ")")),
  node "list_pattern" (acrossRows (do
    sign "["; sepBy (r .target) comma; opt comma; sign "]"))]

/-- One target, or several that are joined by commas. -/
def targets (r : Rule → Parser Unit) : Parser Unit := do
  simpleTarget r
  if ← ahead comma then
    extend "pattern_list" "" (do
      many (do comma; simpleTarget r)
      opt comma)

/-! ## Simple statements -/

/-- An import with another name for it. -/
def importItem : Parser Unit :=
  node "aliased_import" (do
    field "name" dottedName; word "as"; field "alias" name) <|> dottedName

/-- The list of imports of a statement. -/
def importItems : Parser Unit := do
  sepBy1 (field "name" importItem) comma
  opt comma

/-- What an import statement takes from a module. -/
def importedNames : Parser Unit := oneOf [
  node "wildcard_import" (sign "*"),
  acrossRows (do sign "("; importItems; sign ")"),
  importItems]

/-- A module named from the place of the importing file. -/
def relativeImport : Parser Unit :=
  node "relative_import" (do
    node "import_prefix" (many1 (sign "..." <|> sign "."))
    opt dottedName)

/-- An import statement. -/
def importStatement : Parser Unit := oneOf [
  node "import_statement" (do word "import"; importItems),
  node "future_import_statement" (do
    word "from"; word "__future__"; word "import"; importedNames),
  node "import_from_statement" (do
    word "from"
    field "module_name" (relativeImport <|> dottedName)
    word "import"
    importedNames)]

/-- What is assigned: an expression list, another assignment, or a `yield`. -/
def assigned (r : Rule → Parser Unit) : Nat → Parser Unit
  | 0 => fail
  | depth + 1 => oneOf [
      node "assignment" (do
        field "left" (targets r)
        oneOf [
          (do
            sign ":"
            field "type" (r .type)
            opt (do sign "="; field "right" (assigned r depth))),
          (do sign "="; field "right" (assigned r depth))]),
      node "augmented_assignment" (do
        field "left" (targets r)
        signIn ["+=", "-=", "*=", "/=", "@=", "//=", "%=", "**=", ">>=", "<<=", "&=", "^=", "|="]
        field "right" (assigned r depth)),
      yieldExpression r,
      expressions r]

/-- A statement made of an expression or an assignment. -/
def expressionStatement (r : Rule → Parser Unit) : Parser Unit :=
  node "expression_statement" (do
    assigned r 64
    let kind ← lastKind
    if kind == "expression_list" then flatten)
where
  /-- Puts the members of the last node in its place. -/
  flatten : Parser Unit := fun _ s =>
    match s.out with
    | [] => .done () s
    | t :: rest => .done () { s with out := t.children.reverse ++ rest }

/-- A statement that fits on one row. -/
def simpleStatement (r : Rule → Parser Unit) : Parser Unit := do
  match ← nextWord with
  | "import" | "from" => importStatement
  | "pass" => node "pass_statement" (word "pass")
  | "break" => node "break_statement" (word "break")
  | "continue" => node "continue_statement" (word "continue")
  | "return" => node "return_statement" (do word "return"; opt (expressions r))
  | "del" => node "delete_statement" (do word "del"; expressions r)
  | "raise" => node "raise_statement" (do
      word "raise"
      opt (expressions r)
      opt (do word "from"; field "cause" (r .expression)))
  | "assert" => node "assert_statement" (do word "assert"; sepBy1 (r .expression) comma)
  | "global" => node "global_statement" (do word "global"; sepBy1 name comma)
  | "nonlocal" => node "nonlocal_statement" (do word "nonlocal"; sepBy1 name comma)
  | "type" =>
    node "type_alias_statement" (do
      word "type"; field "left" (r .type); sign "="; field "right" (r .type)) <|>
    expressionStatement r
  | "print" => older "print_statement"
  | "exec" => older "exec_statement"
  | _ => expressionStatement r
where
  /-- A statement of the older language, told from a name by what follows. -/
  older (kind : String) : Parser Unit :=
    node kind (do
      freeWord []
      peek (name <|> strings r <|> number)
      sepBy1 (r .expression) comma
      opt comma
      opt (do word "in"; sepBy1 (r .expression) comma)) <|> expressionStatement r

/-- The simple statements of one row. -/
def simpleRow (r : Rule → Parser Unit) : Parser Unit := do
  sepBy1 (simpleStatement r) (sign ";")
  opt (sign ";")
  endRow

/-- The body of a compound statement. -/
def suite (r : Rule → Parser Unit) : Parser Unit :=
  (do endRow; innerBlock r) <|> node "block" (simpleRow r)

/-! ## Compound statements -/

/-- One parameter of a function. -/
def parameter (r : Rule → Parser Unit) : Parser Unit := oneOf [
  node "typed_default_parameter" (do
    field "name" name; sign ":"; field "type" (r .type)
    sign "="; field "value" (r .expression)),
  node "typed_parameter" (do
    oneOf [
      node "dictionary_splat_pattern" (do sign "**"; name),
      node "list_splat_pattern" (do sign "*"; name),
      name]
    sign ":"
    field "type" (r .type)),
  node "default_parameter" (do
    field "name" name; sign "="; field "value" (r .expression)),
  node "dictionary_splat_pattern" (do sign "**"; name),
  node "list_splat_pattern" (do sign "*"; name),
  node "keyword_separator" (sign "*"),
  node "positional_separator" (sign "/"),
  name,
  node "tuple_pattern" (acrossRows (do
    sign "("; sepBy1 (r .target) comma; opt comma; sign ")"))]

/-- The parameters of a function. -/
def parameters (r : Rule → Parser Unit) : Parser Unit :=
  node "parameters" (acrossRows (do
    sign "("; sepBy (parameter r) comma; opt comma; sign ")"))

/-- Type variables in brackets, some with a bound. -/
def typeParameters (r : Rule → Parser Unit) : Parser Unit := do
  let parameter := node "type" (node "constrained_type" (do
    r .type
    sign ":"
    r .type)) <|> r .type
  node "type_parameter" (acrossRows (do
    sign "["
    sepBy1 (do
      parameter
      opt (do sign "="; r .type)) comma
    opt comma
    sign "]"))

/-- A function definition. -/
def functionDefinition (r : Rule → Parser Unit) : Parser Unit :=
  node "function_definition" (do
    opt (word "async")
    word "def"
    field "name" name
    opt (field "type_parameters" (typeParameters r))
    field "parameters" (parameters r)
    opt (do sign "->"; field "return_type" (r .type))
    sign ":"
    field "body" (suite r))

/-- A class definition. -/
def classDefinition (r : Rule → Parser Unit) : Parser Unit :=
  node "class_definition" (do
    word "class"
    field "name" name
    opt (field "type_parameters" (typeParameters r))
    opt (field "superclasses" (arguments r))
    sign ":"
    field "body" (suite r))

/-- A definition below its decorators. -/
def decoratedDefinition (r : Rule → Parser Unit) : Parser Unit :=
  node "decorated_definition" (do
    let decorator := node "decorator" (do sign "@"; r .expression)
    decorator
    endRow
    many (do enterRow; decorator; endRow)
    enterRow
    field "definition" (functionDefinition r <|> classDefinition r))

/-- The `else` part of a statement, on a row of its own. -/
def elseClause (r : Rule → Parser Unit) : Parser Unit := do
  enterRow
  node "else_clause" (do word "else"; sign ":"; field "body" (suite r))

/-- A condition with its branches. -/
def ifStatement (r : Rule → Parser Unit) : Parser Unit :=
  node "if_statement" (do
    word "if"
    field "condition" (r .expression)
    sign ":"
    field "consequence" (suite r)
    many (field "alternative" (do
      enterRow
      node "elif_clause" (do
        word "elif"
        field "condition" (r .expression)
        sign ":"
        field "consequence" (suite r))))
    opt (field "alternative" (elseClause r)))

/-- A loop over items. -/
def forStatement (r : Rule → Parser Unit) : Parser Unit :=
  node "for_statement" (do
    opt (word "async")
    word "for"
    field "left" (targets r)
    word "in"
    field "right" (expressions r)
    sign ":"
    field "body" (suite r)
    opt (field "alternative" (elseClause r)))

/-- A loop with a condition. -/
def whileStatement (r : Rule → Parser Unit) : Parser Unit :=
  node "while_statement" (do
    word "while"
    field "condition" (r .expression)
    sign ":"
    field "body" (suite r)
    opt (field "alternative" (elseClause r)))

/-- A block with the handlers of its exceptions. -/
def tryStatement (r : Rule → Parser Unit) : Parser Unit :=
  node "try_statement" (do
    word "try"
    sign ":"
    field "body" (suite r)
    many (do
      enterRow
      node "except_clause" (do
        word "except"
        opt (sign "*")
        opt (do
          expressions r
          opt (extend "as_pattern" "" (do
            word "as"
            field "alias" (node "as_pattern_target" (r .expression)))))
        sign ":"
        suite r))
    opt (elseClause r)
    opt (do
      enterRow
      node "finally_clause" (do word "finally"; sign ":"; suite r)))

/-- One resource of a `with` statement. -/
def withItem (r : Rule → Parser Unit) : Parser Unit :=
  node "with_item" (field "value" (do
    r .expression
    opt (extend "as_pattern" "" (do
      word "as"
      field "alias" (node "as_pattern_target" (simpleTarget r))))))

/-- A block that holds resources. -/
def withStatement (r : Rule → Parser Unit) : Parser Unit :=
  node "with_statement" (do
    opt (word "async")
    word "with"
    (do
      node "with_clause" (acrossRows (do
        sign "("; sepBy1 (withItem r) comma; opt comma; sign ")"))
      sign ":") <|>
    (do
      node "with_clause" (do sepBy1 (withItem r) comma; opt comma)
      sign ":")
    field "body" (suite r))

/-- A pattern of a `case`. -/
def casePattern (r : Rule → Parser Unit) : Parser Unit := do
  let simple := oneOf [
    node "class_pattern" (do
      dottedName
      acrossRows (do
        sign "("
        sepBy (node "case_pattern" (node "keyword_pattern" (do
          name; sign "="; r .casePattern)) <|> r .casePattern) comma
        opt comma
        sign ")")),
    node "splat_pattern" (do signIn ["*", "**"]; (name <|> word "_")),
    node "list_pattern" (acrossRows (do
      sign "["; sepBy (r .casePattern) comma; opt comma; sign "]")),
    node "tuple_pattern" (acrossRows (do
      sign "("; sepBy (r .casePattern) comma; opt comma; sign ")")),
    node "dict_pattern" (acrossRows (do
      sign openBrace
      sepBy (node "splat_pattern" (do sign "**"; name) <|> (do
        field "key" (r .casePattern); sign ":"; field "value" (r .casePattern))) comma
      opt comma
      sign closeBrace)),
    strings r,
    (do
      opt (sign "-")
      number
      opt (extend "complex_pattern" "" (do signIn ["+", "-"]; number))),
    node "true" (word "True"),
    node "false" (word "False"),
    node "none" (word "None"),
    dottedName]
  node "case_pattern" (do
    simple
    if ← ahead (sign "|") then
      extend "union_pattern" "" (many1 (do sign "|"; simple))
    opt (extend "as_pattern" "" (do word "as"; name)))

/-- A choice between patterns. -/
def matchStatement (r : Rule → Parser Unit) : Parser Unit :=
  node "match_statement" (do
    word "match"
    sepBy1 (field "subject" (starExpression r)) comma
    opt comma
    sign ":"
    endRow
    field "body" cases)
where
  /-- One case with its body. -/
  caseClause : Parser Unit :=
    node "case_clause" (do
      word "case"
      sepBy1 (r .casePattern) comma
      opt comma
      opt (field "guard" (node "if_clause" (do word "if"; r .expression)))
      sign ":"
      field "consequence" (suite r))
  /-- The cases on the rows below. -/
  cases : Parser Unit := fun e s =>
    let (i, indent, _) := codeAhead e s
    if i < e.source.size && s.indent < indent then
      indented indent (do
        enterRow
        node "block" (do
          caseClause
          many (do enterRow; caseClause)
          closeBlock)) e s
    else .fail s.far

/-- A statement. -/
def statement (r : Rule → Parser Unit) : Parser Unit := do
  if (← nextChar) == '@' then decoratedDefinition r
  else
    match ← nextWord with
    | "def" => functionDefinition r
    | "class" => classDefinition r
    | "if" => ifStatement r
    | "for" => forStatement r
    | "while" => whileStatement r
    | "try" => tryStatement r
    | "with" => withStatement r
    | "async" => oneOf [functionDefinition r, forStatement r, withStatement r, simpleRow r]
    | "match" => matchStatement r <|> simpleRow r
    | _ => simpleRow r

/-! ## The grammar -/

/-- The productions of Python. -/
def grammar : Grammar Rule := fun r rule =>
  match rule with
  | .statement => statement r
  | .expression => expression r
  | .operand level => operand r level
  | .primary => primary r
  | .target => simpleTarget r
  | .targets => targets r
  | .type => type r
  | .casePattern => casePattern r

/-- A whole module. -/
def module (fuel : Nat) : Parser Unit :=
  node "module" (do
    many (do enterRow; grammar.run fuel .statement)
    closeBlock)

/-- The tree of a Python text, or the furthest place at which it does not fit the grammar. -/
def parse (source : Source) (repair : Repair) : Except Nat Tree :=
  parseWhole lexis source repair true (module (16 * source.size + 64))

end Python
end Syntax
end CodeAtlas

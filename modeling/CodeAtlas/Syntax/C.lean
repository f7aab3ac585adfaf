import CodeAtlas.Syntax.C.Expression

/-!
# C

Declarations, statements and preprocessor directives of C.  A directive that ends with its row
takes the row end in.  A conditional directive surrounds what stands between its rows.
-/

namespace CodeAtlas
namespace Syntax
namespace C

open CodeAtlas.Syntax.Parser

/-! ## Directives -/

/-- The end of the mark of a directive with one of some names. -/
def directiveEnd? (names : List String) (s : Source) (i : Nat) : Option Nat :=
  if s.charAt i != '#' then none
  else
    let j := s.scanWhile (fun c => c == ' ' || c == '\t') (i + 1)
    let k := s.scanWhile Text.isWordChar j
    if names.contains (s.text j k) then some k else none

/-- The mark of a directive. -/
def directive (names : List String) : Parser Unit := lexeme (directiveEnd? names)

/-- Reads with a parser for which row ends are not blank. -/
def withinRow (p : Parser Unit) : Parser Unit := fun e s =>
  match p e { s with rows := true } with
  | .fail far => .fail far
  | .done a s' => .done a { s' with rows := s.rows }

/-- The end of a row, which belongs to the directive on it. -/
def rowEnd : Parser Unit := withinRow (do
  let i ← here
  let s ← source
  if s.size ≤ i then return
  check (s.charAt i == '\n')
  consumeTo (i + 1))

/-- The end of the text of a directive; a comment between marks may reach over rows. -/
def directiveTextEnd (s : Source) : Nat → Nat → Nat
  | 0, i => i
  | fuel + 1, i =>
    match s.get? i with
    | none => i
    | some '\n' => i
    | some c =>
      if c == '\\' then
        directiveTextEnd s fuel (if s.hasAt i ['\\', '\r', '\n'] then i + 3 else i + 2)
      else if s.hasAt i ['/', '*'] then
        directiveTextEnd s fuel (s.endOfFirst ['*', '/'] (i + 2))
      else directiveTextEnd s fuel (i + 1)

/-- What stands behind the mark of a directive. -/
def directiveText (role : String) : Parser Unit := withinRow (do
  let i ← here
  let s ← source
  let j := directiveTextEnd s s.size i
  let k := j - ((s.slice i j).reverse.takeWhile fun c => c == ' ' || c == '\t' || c == '\r').length
  if i < k then field role (node "preproc_arg" (consumeTo k)))

/-- The inclusion of another file. -/
def inclusion (r : Rule → Parser Unit) : Parser Unit :=
  node "preproc_include" (do
    directive ["include", "include_next", "import"]
    withinRow (field "path" (oneOf [
      string,
      node "system_lib_string" (lexeme fun s i =>
        if s.charAt i != '<' then none
        else
          let j := s.scanWhile (fun c => c != '>' && c != '\n') i
          if s.charAt j == '>' then some (j + 1) else none),
      (do
        name
        opt (extend "call_expression" "function" (field "arguments" (arguments r))))]))
    rowEnd)

/-- The definition of a macro. -/
def define : Parser Unit :=
  nodeOf (do
    directive ["define"]
    let kind ← fun e s =>
      match withinRow (field "name" name) e s with
      | .fail far => .fail far
      | .done _ s' =>
        .done (if e.source.charAt s'.pos == '(' then "preproc_function_def" else "preproc_def") s'
    if kind == "preproc_function_def" then
      withinRow (field "parameters" (node "preproc_params" (do
        sign "("
        sepBy (name <|> node "" (sign "...")) comma
        sign ")")))
    directiveText "value"
    rowEnd
    return kind)

/-- Any other directive. -/
def call : Parser Unit :=
  node "preproc_call" (do
    field "directive" (node "preproc_directive" (lexeme fun s i =>
      if s.charAt i != '#' then none
      else
        let j := s.scanWhile (fun c => c == ' ' || c == '\t') (i + 1)
        let k := s.scanWhile Text.isWordChar j
        let reserved := ["include", "define", "if", "ifdef", "ifndef", "elif", "else", "endif",
          "elifdef", "elifndef"]
        if j == k || reserved.contains (s.text j k) then none else some k))
    directiveText "argument"
    rowEnd)

/-- The condition of a directive. -/
def directiveCondition (r : Rule → Parser Unit) : Parser Unit := do
  field "condition" (withinRow (r .expression))
  rowEnd

/-- The parts of a conditional directive behind the first one. -/
def alternative (r : Rule → Parser Unit) (item : Parser Unit) : Nat → Parser Unit
  | 0 => fail
  | depth + 1 => oneOf [
      node "preproc_else" (do
        directive ["else"]
        many item),
      node "preproc_elif" (do
        directive ["elif"]
        directiveCondition r
        many item
        opt (field "alternative" (alternative r item depth))),
      node "preproc_elifdef" (do
        directive ["elifdef", "elifndef"]
        field "name" name
        many item
        opt (field "alternative" (alternative r item depth)))]

/-- A conditional directive with the items that it surrounds. -/
def conditional (r : Rule → Parser Unit) (item : Parser Unit) : Parser Unit := do
  let rest := do
    many item
    opt (field "alternative" (alternative r item 256))
    directive ["endif"]
  oneOf [
    node "preproc_if" (do
      directive ["if"]
      directiveCondition r
      rest),
    node "preproc_ifdef" (do
      directive ["ifdef", "ifndef"]
      field "name" name
      rest)]

/-- A directive between items. -/
def anyDirective (r : Rule → Parser Unit) (item : Parser Unit) : Parser Unit :=
  oneOf [inclusion r, define, conditional r item, call]

/-! ## Declarations -/

/-- A semicolon; a text that holds one declaration may leave it out at its end. -/
def semicolon : Parser Unit := do
  if !(← atEnd) then sign ";"

/-- A variable with its value. -/
def initDeclarator (r : Rule → Parser Unit) : Parser Unit := do
  r (.declarator .name)
  opt (assembly r)
  opt (extend "init_declarator" "declarator" (do
    sign "="
    field "value" (r .initializer)))

/-- A type that is declared on its own. -/
def emptyDeclaration (r : Rule → Parser Unit) : Parser Unit := do
  peek (wordIn ["struct", "union", "enum"])
  r .specifier
  semicolon

/-- Another name for a type. -/
def typeDefinition (r : Rule → Parser Unit) : Parser Unit :=
  node "type_definition" (do
    opt (word "__extension__")
    word "typedef"
    many qualifier
    field "type" (r .specifier)
    many qualifier
    sepBy1 (field "declarator" (r (.declarator .type))) comma
    many (attributeList r)
    sign ";")

/-- Variables, or a function with its body.

A name in front of a parenthesis is no type, so that what looks like a call is one. -/
def declaration (r : Rule → Parser Unit) : Parser Unit :=
  nodeOf (do
    specifiers r
    if (← lastKind) == "type_identifier" then no (sign "(")
    field "declarator" (initDeclarator r)
    opt (do
      check ((← nextWord) != "")
      many1 (r .oldParameter)
      peek (sign openBrace))
    if ← ahead (sign openBrace) then
      field "body" (r .compound)
      return "function_definition"
    many (do comma; field "declarator" (initDeclarator r))
    many (attributeList r)
    sign ";"
    return "declaration")

/-- Declarations with the conventions of another language. -/
def linkage (r : Rule → Parser Unit) : Parser Unit :=
  node "linkage_specification" (do
    word "extern"
    field "value" string
    field "body" (node "declaration_list" (do
      sign openBrace
      many (r .topItem)
      sign closeBrace) <|> declaration r))

/-- A member of a structure. -/
def memberItem (r : Rule → Parser Unit) : Parser Unit := do
  if (← nextChar) == '#' then anyDirective r (r .memberItem)
  else
    sign ";" <|> node "field_declaration" (do
      specifiers r
      let bits := opt (node "bitfield_clause" (do sign ":"; r .expression))
      bits
      sepBy (do field "declarator" (r (.declarator .member)); bits) comma
      many (attributeList r)
      sign ";")

/-! ## Statements -/

/-- A condition in parentheses. -/
def condition (r : Rule → Parser Unit) : Parser Unit :=
  node "parenthesized_expression" (between "(" ")" (r .expressions))

/-- Statements between braces. -/
def compound (r : Rule → Parser Unit) : Parser Unit :=
  node "compound_statement" (do
    sign openBrace
    many (r .blockItem)
    sign closeBrace)

/-- A statement made of an expression. -/
def expressionStatement (r : Rule → Parser Unit) : Parser Unit :=
  node "expression_statement" (do
    opt (r .expressions)
    sign ";")

/-- A loop with a counter. -/
def forStatement (r : Rule → Parser Unit) : Parser Unit :=
  node "for_statement" (do
    word "for"
    sign "("
    field "initializer" (declaration r) <|> (do
      opt (field "initializer" (r .expressions))
      sign ";")
    opt (field "condition" (r .expressions))
    sign ";"
    opt (field "update" (r .expressions))
    sign ")"
    field "body" (r .statement))

/-- A statement that is no declaration. -/
def statement (r : Rule → Parser Unit) : Parser Unit := do
  match ← nextWord with
  | "if" => node "if_statement" (do
      word "if"
      field "condition" (condition r)
      field "consequence" (r .statement)
      opt (field "alternative" (node "else_clause" (do word "else"; r .statement))))
  | "while" => node "while_statement" (do
      word "while"
      field "condition" (condition r)
      field "body" (r .statement))
  | "do" => node "do_statement" (do
      word "do"
      field "body" (r .statement)
      word "while"
      field "condition" (condition r)
      sign ";")
  | "for" => forStatement r
  | "switch" => node "switch_statement" (do
      word "switch"
      field "condition" (condition r)
      field "body" (r .compound))
  | "case" => node "case_statement" (do
      word "case"
      field "value" (r .expression)
      opt (do sign "..."; r .expression)
      sign ":"
      many (do
        no (wordIn ["case", "default"])
        r .blockItem))
  | "default" => node "case_statement" (do
      word "default"
      sign ":"
      many (do
        no (wordIn ["case", "default"])
        r .blockItem))
  | "break" => node "break_statement" (do word "break"; sign ";")
  | "continue" => node "continue_statement" (do word "continue"; sign ";")
  | "return" => node "return_statement" (do
      word "return"
      opt (r .expressions)
      sign ";")
  | "goto" => node "goto_statement" (do
      word "goto"
      field "label" (node "statement_identifier" (freeWord keywords))
      sign ";")
  | _ =>
    if ← ahead (sign openBrace) then r .compound
    else if ← ahead (do freeWord keywords; sign ":") then
      node "labeled_statement" (do
        field "label" (node "statement_identifier" (freeWord keywords))
        sign ":"
        r .blockItem)
    else expressionStatement r

/-- An item of a block. -/
def blockItem (r : Rule → Parser Unit) : Parser Unit := do
  if (← nextChar) == '#' then anyDirective r (r .blockItem)
  else if ← ahead (do opt (word "__extension__"); word "typedef") then typeDefinition r
  else if ← ahead (do freeWord keywords; sign ":") then r .statement
  else oneOf [emptyDeclaration r, declaration r, r .statement]

/-- An item at the top of a file. -/
def topItem (r : Rule → Parser Unit) : Parser Unit := do
  if (← nextChar) == '#' then anyDirective r (r .topItem)
  else if ← ahead (sign ";") then sign ";"
  else if ← ahead (do word "extern"; string) then linkage r
  else if ← ahead (do opt (word "__extension__"); word "typedef") then typeDefinition r
  else oneOf [emptyDeclaration r, declaration r, r .statement]

/-! ## The grammar -/

/-- The productions of C. -/
def grammar : Grammar Rule := fun r rule =>
  match rule with
  | .topItem => topItem r
  | .blockItem => blockItem r
  | .memberItem => memberItem r
  | .statement => statement r
  | .compound => compound r
  | .expressions => expressions r
  | .expression => expression r
  | .operand level => operand r level
  | .initializer => initializer r
  | .specifier => specifier r
  | .typeDescriptor => typeDescriptor r
  | .declarator l => declarator r l
  | .abstractDeclarator => abstractDeclarator r
  | .parameters => parameters r
  | .oldParameter => declaration r

/-- A whole file. -/
def wholeFile (fuel : Nat) : Parser Unit :=
  node "translation_unit" (many (grammar.run fuel .topItem))

/-- The tree of a C text, or the furthest place at which it does not fit the grammar. -/
def parse (source : Source) (repair : Repair) : Except Nat Tree :=
  parseWhole lexis source repair false (wholeFile (16 * source.size + 64))

end C
end Syntax
end CodeAtlas

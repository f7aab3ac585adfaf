import CodeAtlas.Syntax.Parser
import CodeAtlas.Text.Blank

/-!
# Lexemes of JavaScript and TypeScript

The three dialects share their lexemes: words, numbers, strings, templates and regular
expressions.  A statement ends with a semicolon, before a closing brace, at the end of the text,
or at the end of a row, unless the next row goes on with the expression.
-/

namespace CodeAtlas
namespace Syntax
namespace Script

open CodeAtlas.Syntax.Parser

/-- A dialect: with or without type annotations and with or without markup. -/
structure Dialect where
  typed : Bool
  markup : Bool
deriving DecidableEq, Repr

/-- The rules that refer to one another. -/
inductive Rule where
  | statement
  | block
  | expression
  | expressions
  | operand (level : Nat)
  | constructor
  | pattern
  | parameters
  | signature
  | classBody
  | arguments
  | string
  | template
  | element
  | type
  | primaryType
  | objectType
  | typeArguments
  | typeParameters
deriving DecidableEq

/-! ## Characters -/

/-- The back quote, which encloses templates. -/
def backQuote : Char := '\x60'

/-- The character may stand between lexemes. -/
def isBlank (c : Char) : Bool :=
  Text.isBlank c || c == '\uFEFF' || c == '\u2060' || c == '\u200B'

/-- The character may start a word. -/
def startsWord (c : Char) : Bool :=
  if c.toNat < 0x80 then c.isAlpha || c == '_' || c == '$' || c.toNat == 0x7F
  else !isBlank c

/-- The character may stand in a word. -/
def continuesWord (c : Char) : Bool := startsWord c || c.isDigit

/-- The end of the row that an index stands on, without its carriage return. -/
def rowEnd (s : Source) (i : Nat) : Nat :=
  s.scanWhile (fun c => c != '\n' && c != '\r' && c != '\u2028' && c != '\u2029') i

/-- Comments run to the end of their row or up to a closing mark. -/
def comment? (s : Source) (i : Nat) : Option (String × Nat) :=
  if s.hasAt i ['/', '/'] then some ("comment", rowEnd s i)
  else if s.hasAt i ['/', '*'] then some ("comment", s.endOfFirst ['*', '/'] (i + 2))
  else none

/-- The lexical rules. -/
def lexis : Lexis where
  isBlank := isBlank
  comment? := comment?
  startsWord := startsWord
  continuesWord := continuesWord
  punctuators := [">>>=", "...", "===", "!==", "**=", "<<=", ">>=", ">>>", "&&=", "||=", "??=",
    "=>", "==", "!=", "<=", ">=", "&&", "||", "??", "?.", "++", "--", "+=", "-=", "*=", "/=", "%=",
    "&=", "|=", "^=", "<<", ">>", "**", openBrace, closeBrace, "(", ")", "[", "]", ";", ",", "<",
    ">", "+", "-", "*", "/", "%", "&", "|", "^", "!", "~", "?", ":", "=", ".", "@", "#"].map
      String.toList

/-- The words that are never names. -/
def keywords : List String :=
  ["break", "case", "catch", "class", "const", "continue", "debugger", "default", "delete", "do",
    "else", "extends", "false", "finally", "for", "function", "if", "import", "in", "instanceof",
    "new", "null", "return", "super", "switch", "this", "throw", "true", "try", "typeof", "var",
    "void", "while", "with", "yield", "enum"]

/-! ## Words -/

/-- The next lexeme is a word that can be a name. -/
def nameAhead : Parser Bool := do
  let w ← nextWord
  return w != "" && !keywords.contains w

/-- A name. -/
def name : Parser Unit := node "identifier" (freeWord keywords)

/-- A name in an expression; `undefined` is a node of its own. -/
def reference : Parser Unit := do
  if (← nextWord) == "undefined" then node "undefined" (word "undefined") else name

/-- A private name. -/
def privateName : Parser Unit :=
  node "private_property_identifier" (do sign "#"; freeWord [])

/-- A comma between items. -/
def comma : Parser Unit := sign ","

/-- The next lexeme stands on the same row as the last one. -/
def sameRow : Parser Unit := do check (!(← rowEnds))

/-! ## The end of a statement -/

/-- An expression goes on with the lexeme at an index. -/
def goesOn (s : Source) (i : Nat) : Bool :=
  let c := s.charAt i
  let d := s.charAt (i + 1)
  if c == '+' || c == '-' then d != c
  else if c == '!' then d == '='
  else if c == '.' then !d.isDigit
  else if c == 'i' then
    let j := s.scanWhile continuesWord i
    let w := s.slice i j
    w == ['i', 'n'] || w == "instanceof".toList
  else
    [',', ':', ';', '*', '%', '>', '<', '=', '[', '(', '?', '^', '|', '&', '/', backQuote].contains c

/-- The end of a statement, with or without a semicolon. -/
def semicolon : Parser Unit := do
  if ← found (sign ";") then return
  if ← atEnd then return
  if (← nextChar) == '}' then return
  if ← rowEnds then
    let i ← here
    check (!goesOn (← source) i)
  else fail

/-! ## Numbers, strings and regular expressions -/

/-- The end of a number at an index. -/
def numberEnd? (s : Source) (i : Nat) : Option Nat :=
  let c := s.charAt i
  let startsFraction := c == '.' && (s.charAt (i + 1)).isDigit
  if !c.isDigit && !startsFraction then none
  else
    let body (d : Char) : Bool := d.isAlphanum || d == '_'
    let isHex := c == '0' && ['x', 'X', 'b', 'B', 'o', 'O'].contains (s.charAt (i + 1))
    let whole := if startsFraction then i else s.scanWhile body i
    let j :=
      if !isHex && s.charAt whole == '.' then s.scanWhile body (whole + 1) else whole
    let before := s.charAt (j - 1)
    if (before == 'e' || before == 'E') && !isHex && (s.charAt j == '+' || s.charAt j == '-') then
      some (s.scanWhile body (j + 1))
    else some j

/-- A number. -/
def number : Parser Unit := node "number" (lexeme numberEnd?)

/-- The end of an escape sequence that starts at an index. -/
def escapeEnd (s : Source) (i : Nat) : Nat :=
  let c := s.charAt (i + 1)
  if c == 'x' then i + 4
  else if c == 'u' then
    if s.charAt (i + 2) == '{' then s.scanWhile (· != '}') (i + 2) + 1 else i + 6
  else if '0' ≤ c && c ≤ '7' then
    min (i + 4) (s.scanWhile (fun d => '0' ≤ d && d ≤ '7') (i + 1))
  else if c == '\r' && s.charAt (i + 2) == '\n' then i + 3
  else i + 2

/-- Reads up to an index, as a node of its own. -/
def piece (kind : String) (first stop : Nat) : Parser Unit := fun _ s =>
  .done () { s with pos := stop, last := stop, out := Tree.node kind "" first stop [] :: s.out }

/-- Reads a string up to its closing quote. -/
def stringBody (quote : Char) : Nat → Parser Unit
  | 0 => fail
  | fuel + 1 => do
    let i ← position
    let s ← source
    match s.get? i with
    | none => fail
    | some c =>
      if c == quote then jumpTo (i + 1)
      else if c == '\n' then fail
      else if c == '\\' then
        piece "escape_sequence" i (escapeEnd s i)
        stringBody quote fuel
      else
        let j := s.scanWhile (fun d => d != quote && d != '\\' && d != '\n') i
        piece "string_fragment" i j
        stringBody quote fuel

/-- A string in single or double quotes. -/
def string : Parser Unit := do
  let quote ← nextChar
  if quote == '"' || quote == '\'' then
    node "string" (do
      let i ← here
      consumeTo (i + 1)
      stringBody quote ((← source).size + 1))
  else fail

/-- Reads a template up to its closing quote; `substitution` reads what stands between
braces. -/
def templateBody (substitution : Parser Unit) : Nat → Parser Unit
  | 0 => fail
  | fuel + 1 => do
    let i ← position
    let s ← source
    match s.get? i with
    | none => fail
    | some c =>
      if c == backQuote then jumpTo (i + 1)
      else if c == '\\' then
        piece "escape_sequence" i (escapeEnd s i)
        templateBody substitution fuel
      else if c == '$' && s.charAt (i + 1) == '{' then
        node "template_substitution" (do
          jumpTo (i + 2)
          substitution
          exactly closeBrace)
        templateBody substitution fuel
      else if c == '$' then
        piece "string_fragment" i (i + 1)
        templateBody substitution fuel
      else
        let j := s.scanWhile (fun d => d != backQuote && d != '\\' && d != '$') i
        piece "string_fragment" i j
        templateBody substitution fuel

/-- A template. -/
def template (kind : String) (substitution : Parser Unit) : Parser Unit := do
  if (← nextChar) == backQuote then
    node kind (do
      let i ← here
      consumeTo (i + 1)
      templateBody substitution ((← source).size + 1))
  else fail

/-- The end of a regular expression, from behind its opening slash on; `inClass` says that
brackets are open. -/
def regexEnd? (s : Source) : Nat → Bool → Nat → Option Nat
  | 0, _, _ => none
  | fuel + 1, inClass, i =>
    match s.get? i with
    | none => none
    | some c =>
      if c == '\n' then none
      else if c == '\\' then regexEnd? s fuel inClass (i + 2)
      else if c == '[' then regexEnd? s fuel true (i + 1)
      else if c == ']' then regexEnd? s fuel false (i + 1)
      else if c == '/' && !inClass then some (i + 1)
      else regexEnd? s fuel inClass (i + 1)

/-- A regular expression with its flags. -/
def regex : Parser Unit :=
  node "regex" (lexeme fun s i =>
    if s.charAt i != '/' then none
    else (regexEnd? s s.size false (i + 1)).map (s.scanWhile Char.isAlpha))

end Script
end Syntax
end CodeAtlas

import CodeAtlas.Pattern.Basic

/-!
# Reading patterns

A group of patterns is written as a text of parenthesised terms: `(kind …)` describes a node,
`name: (…)` a child in a field, `!name` a field that is not filled, `[… …]` a choice, `.` a child
that follows at once or is the last one, `@label` a capture, and `(#name? …)` a condition.
-/

namespace CodeAtlas
namespace Pattern

/-- A lexeme of the notation. -/
inductive Lexeme where
  | opening
  | closing
  | leftBracket
  | rightBracket
  | anchor
  | name (text : String)
  | field (text : String)
  | absent (text : String)
  | label (text : String)
  | condition (text : String)
  | text (value : String)
deriving DecidableEq, Inhabited

/-- The character belongs to a name. -/
def isNameChar (c : Char) : Bool :=
  c.isAlphanum || c == '_' || c == '-' || c == '.' || c == '?' || c == '!'

/-- A quoted text behind its opening quote, and what follows it. -/
def readQuoted : List Char → Option (List Char × List Char)
  | [] => none
  | '"' :: rest => some ([], rest)
  | '\n' :: _ => none
  | '\\' :: c :: rest =>
    let meant := match c with
      | 'n' => '\n'
      | 'r' => '\r'
      | 't' => '\t'
      | '0' => '\x00'
      | _ => c
    (readQuoted rest).map fun p => (meant :: p.1, p.2)
  | c :: rest => (readQuoted rest).map fun p => (c :: p.1, p.2)

/-- The name at the front and what follows it. -/
def readName (cs : List Char) : String × List Char :=
  (String.ofList (cs.takeWhile isNameChar), cs.dropWhile isNameChar)

/-- The lexemes of a text. -/
def lexemes : Nat → List Char → Option (List Lexeme)
  | 0, _ => none
  | _ + 1, [] => some []
  | fuel + 1, c :: rest =>
    if c.isWhitespace then lexemes fuel rest
    else
      match c with
      | '(' => (lexemes fuel rest).map (.opening :: ·)
      | ')' => (lexemes fuel rest).map (.closing :: ·)
      | '[' => (lexemes fuel rest).map (.leftBracket :: ·)
      | ']' => (lexemes fuel rest).map (.rightBracket :: ·)
      | '.' => (lexemes fuel rest).map (.anchor :: ·)
      | ';' => lexemes fuel (rest.dropWhile (· != '\n'))
      | '"' => do
        let (value, rest) ← readQuoted rest
        (lexemes fuel rest).map (.text (String.ofList value) :: ·)
      | '!' =>
        let (name, rest) := readName rest
        (lexemes fuel rest).map (.absent name :: ·)
      | '@' =>
        let (name, rest) := readName rest
        (lexemes fuel rest).map (.label name :: ·)
      | '#' =>
        let (name, rest) := readName rest
        (lexemes fuel rest).map (.condition name :: ·)
      | _ =>
        if isNameChar c then
          let (name, rest) := readName (c :: rest)
          match rest with
          | ':' :: rest => (lexemes fuel rest).map (.field name :: ·)
          | _ => (lexemes fuel rest).map (.name name :: ·)
        else none

/-- The captures behind a pattern. -/
def readLabels (p : Shape) : List Lexeme → Shape × List Lexeme
  | .label name :: rest => readLabels (.captured name p) rest
  | rest => (p, rest)

/-- The arguments of a condition up to its closing parenthesis. -/
def readArguments : List Lexeme → Option (List Lexeme × List Lexeme)
  | .closing :: rest => some ([], rest)
  | .label name :: rest => (readArguments rest).map fun p => (.label name :: p.1, p.2)
  | .text value :: rest => (readArguments rest).map fun p => (.text value :: p.1, p.2)
  | _ => none

/-- The texts among the arguments of a condition. -/
def argumentTexts (arguments : List Lexeme) : List String :=
  arguments.filterMap fun
    | .text value => some value
    | _ => none

/-- The condition with a name and arguments. -/
def condition? (name : String) (arguments : List Lexeme) : Option Condition :=
  match name, arguments with
  | "eq?", [.label a, .text value] => some (.isText a value)
  | "eq?", [.label a, .label b] => some (.sameText a b)
  | "match?", [.label a, .text value] => (Text.Regex.read? value).map (.holds a)
  | "any-of?", .label a :: values => some (.isOneOf a (argumentTexts values))
  | _, _ => none

/-- What the inside of a parenthesised pattern gives: the absent fields, the described children,
and the conditions. -/
structure Inside where
  absent : List String
  children : Children
  conditions : List Condition

mutual

/-- A pattern with its captures, and the conditions inside it. -/
def readPattern : Nat → List Lexeme → Option (Shape × List Condition × List Lexeme)
  | 0, _ => none
  | fuel + 1, .opening :: .name kind :: rest => do
    let (inside, rest) ← readInside fuel false rest
    let (p, rest) := readLabels (.node kind inside.absent inside.children) rest
    some (p, inside.conditions, rest)
  | fuel + 1, .leftBracket :: rest => do
    let (p, conditions, rest) ← readChoice fuel rest
    let (p, rest) := readLabels p rest
    some (p, conditions, rest)
  | _, _ => none

/-- The alternatives of a choice up to its closing bracket. -/
def readChoice : Nat → List Lexeme → Option (Shape × List Condition × List Lexeme)
  | 0, _ => none
  | fuel + 1, lexemes => do
    let (p, conditions, rest) ← readPattern fuel lexemes
    match rest with
    | .rightBracket :: rest => some (p, conditions, rest)
    | _ =>
      let (q, more, rest) ← readChoice fuel rest
      some (.either p q, conditions ++ more, rest)

/-- The inside of a parenthesised pattern; `immediate` says that an anchor stands before. -/
def readInside : Nat → Bool → List Lexeme → Option (Inside × List Lexeme)
  | 0, _, _ => none
  | _ + 1, immediate, .closing :: rest => some (⟨[], .done immediate, []⟩, rest)
  | fuel + 1, _, .anchor :: rest => readInside fuel true rest
  | fuel + 1, immediate, .absent name :: rest => do
    let (inside, rest) ← readInside fuel immediate rest
    some ({ inside with absent := name :: inside.absent }, rest)
  | fuel + 1, immediate, .opening :: .condition name :: rest => do
    let (arguments, rest) ← readArguments rest
    let condition ← condition? name arguments
    let (inside, rest) ← readInside fuel immediate rest
    some ({ inside with conditions := condition :: inside.conditions }, rest)
  | fuel + 1, immediate, .field name :: rest => do
    let (p, conditions, rest) ← readPattern fuel rest
    let (inside, rest) ← readInside fuel false rest
    some (⟨inside.absent, .child name immediate p inside.children,
      conditions ++ inside.conditions⟩, rest)
  | fuel + 1, immediate, rest => do
    let (p, conditions, rest) ← readPattern fuel rest
    let (inside, rest) ← readInside fuel false rest
    some (⟨inside.absent, .child "" immediate p inside.children,
      conditions ++ inside.conditions⟩, rest)

end

/-- The patterns of a group, one after the other. -/
def readQueries : Nat → List Lexeme → Option (List Query)
  | 0, _ => none
  | _ + 1, [] => some []
  | fuel + 1, lexemes => do
    let (p, conditions, rest) ← readPattern fuel lexemes
    let queries ← readQueries fuel rest
    some (⟨p, conditions⟩ :: queries)

/-- The queries that a text stands for; a text that cannot be read stands for none. -/
def readGroup? (text : String) : Option (List Query) := do
  let ls ← lexemes (text.length + 1) text.toList
  readQueries (2 * ls.length + 2) ls

end Pattern
end CodeAtlas

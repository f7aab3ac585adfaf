import CodeAtlas.Syntax.Tree

/-!
# Parsers

A parser reads lexemes from a source and leaves the named nodes it finishes on a list.  Nodes
nest by running a parser on an empty list and packing what it leaves into one node; a node that
was finished before its parent was recognised, such as the operand in front of an operator, is
taken back from the list and becomes the first child.

Between lexemes blanks and comments are passed over.  Comments are kept aside and put into the
finished tree afterwards, each into the smallest node that surrounds it.  A text that does not fit
its grammar is read with a `Repair`, which names lexemes to pass over and places to end a statement
at.  Every parser remembers the furthest place at which some lexeme was not what was expected.

Recursive grammars are tied together by `Grammar.run`, whose fuel bounds the depth of nesting, so
that every parser is a total function.
-/

namespace CodeAtlas
namespace Syntax

/-- The opening brace. -/
def openBrace : String := "\x7b"

/-- The closing brace. -/
def closeBrace : String := "\x7d"

/-- How the texts of a language are cut into lexemes.

`comment?` gives the kind and the end of a comment that starts at an index, and `punctuators`
lists the punctuation of the language, longer signs before their own beginnings. -/
structure Lexis where
  isBlank : Char → Bool
  comment? : Source → Nat → Option (String × Nat)
  startsWord : Char → Bool
  continuesWord : Char → Bool
  punctuators : List (List Char)

/-- How a text is changed while it is read: the lexemes that start at the `dropped` places are
passed over, and a semicolon is taken to stand in front of each of the `ended` places. -/
structure Repair where
  dropped : List Nat
  ended : List Nat

/-- The text being read, its lexical rules, and the changes to it. -/
structure Env where
  source : Source
  lexis : Lexis
  repair : Repair

/-- How far a parser has come.

`pos` is the next character to read and `last` the end of the last lexeme; `out` and `comments`
are lists of finished nodes, the latest first; `far` is the furthest disappointment; `rows` says
that row ends are not blank; `indent` is the indentation of the block being read. -/
structure State where
  pos : Nat
  last : Nat
  out : List Tree
  comments : List Tree
  far : Nat
  rows : Bool
  indent : Nat

/-- The state before a text is read. -/
def State.initial (rows : Bool) : State := ⟨0, 0, [], [], 0, rows, 0⟩

/-- A value with the state reached, or the furthest place at which reading failed. -/
inductive Outcome (α : Type) where
  | done (value : α) (state : State)
  | fail (far : Nat)

/-- A parser of values of a type. -/
def Parser (α : Type) : Type := Env → State → Outcome α

namespace Env

/-- The end of the word that starts at an index, or the index itself. -/
def wordEnd (e : Env) (i : Nat) : Nat :=
  match e.source.get? i with
  | some c => if e.lexis.startsWord c then e.source.scanWhile e.lexis.continuesWord (i + 1) else i
  | none => i

/-- The longest punctuation sign at an index. -/
def punctuatorAt (e : Env) (i : Nat) : List Char :=
  (e.lexis.punctuators.find? (e.source.hasAt i)).getD []

/-- The end of a quoted text that starts at `i`, or the end of its row. -/
def quotedEnd (e : Env) (quote : Char) : Nat → Nat → Nat
  | 0, i => i
  | fuel + 1, i =>
    match e.source.get? i with
    | none => i
    | some c =>
      if c == '\\' then quotedEnd e quote fuel (i + 2)
      else if c == quote then i + 1
      else if c == '\n' then i
      else quotedEnd e quote fuel (i + 1)

/-- The end of the lexeme at an index, whatever it is. -/
def lexemeEnd (e : Env) (i : Nat) : Nat :=
  let j := e.wordEnd i
  if j != i then j
  else
    let c := e.source.charAt i
    if c.isDigit then e.source.scanWhile (fun d => d.isAlphanum || d == '.' || d == '_') i
    else if c == '"' || c == '\'' then e.quotedEnd c e.source.size (i + 1)
    else i + max 1 (e.punctuatorAt i).length

/-- Passes over blanks, comments and dropped lexemes; the comments passed are put before
`found`. -/
def pass (e : Env) (rows : Bool) : Nat → Nat → List Tree → Nat × List Tree
  | 0, i, found => (i, found)
  | fuel + 1, i, found =>
    match e.source.get? i with
    | none => (i, found)
    | some c =>
      if e.repair.dropped.contains i then pass e rows fuel (e.lexemeEnd i) found
      else if rows && c == '\n' then (i, found)
      else if e.lexis.isBlank c then pass e rows fuel (i + 1) found
      else
        match e.lexis.comment? e.source i with
        | some (kind, j) =>
          if j ≤ i then (i, found)
          else pass e rows fuel j (Tree.node kind "" i j [] :: found)
        | none => (i, found)

end Env

namespace State

/-- The start of the next lexeme and the comments before it. -/
def ahead (s : State) (e : Env) : Nat × List Tree :=
  e.pass s.rows (e.source.size + 1) s.pos []

/-- The start of the next lexeme. -/
def next (s : State) (e : Env) : Nat := (s.ahead e).1

end State

namespace Parser

variable {α β : Type}

/-- Reads nothing. -/
protected def pure (a : α) : Parser α := fun _ s => .done a s

/-- Reads with one parser and goes on with what it found. -/
protected def bind (p : Parser α) (f : α → Parser β) : Parser β := fun e s =>
  match p e s with
  | .done a s' => f a e s'
  | .fail far => .fail far

instance : Monad Parser where
  pure := Parser.pure
  bind := Parser.bind

/-- Reads with the second parser where the first one fails. -/
protected def orElse (p : Parser α) (q : Unit → Parser α) : Parser α := fun e s =>
  match p e s with
  | .done a s' => .done a s'
  | .fail far => q () e { s with far := max s.far far }

instance : OrElse (Parser α) where
  orElse := Parser.orElse

/-- Fails at the next lexeme. -/
def fail : Parser α := fun e s => .fail (max s.far (s.next e))

instance : Inhabited (Parser α) := ⟨fail⟩

/-- Fails unless the condition holds. -/
def check (b : Bool) : Parser Unit := if b then Parser.pure () else fail

/-- The first parser of a list that succeeds. -/
def oneOf : List (Parser Unit) → Parser Unit
  | [] => fail
  | p :: rest => p <|> oneOf rest

/-- Reads with a parser if it succeeds. -/
def opt (p : Parser Unit) : Parser Unit := p <|> Parser.pure ()

/-- Reads with a parser if it succeeds, and says whether it did. -/
def found (p : Parser Unit) : Parser Bool :=
  (Parser.bind p fun _ => Parser.pure true) <|> Parser.pure false

/-- Reads with a parser up to `fuel` times, as long as it succeeds and moves on. -/
def manyUpTo (p : Parser Unit) : Nat → Parser Unit
  | 0 => Parser.pure ()
  | fuel + 1 => fun e s =>
    match p e s with
    | .done _ s' => if s'.pos ≤ s.pos then .done () s else manyUpTo p fuel e s'
    | .fail far => .done () { s with far := max s.far far }

/-- Reads with a parser as often as it succeeds and moves on. -/
def many (p : Parser Unit) : Parser Unit := fun e s => manyUpTo p (e.source.size + 1) e s

/-- Reads with a parser at least once. -/
def many1 (p : Parser Unit) : Parser Unit := do p; many p

/-- Reads items with a separator between them, at least one. -/
def sepBy1 (p separator : Parser Unit) : Parser Unit := do
  p
  many (do separator; p)

/-- Reads items with a separator between them, or none. -/
def sepBy (p separator : Parser Unit) : Parser Unit := opt (sepBy1 p separator)

/-- Whether a parser would succeed here; nothing is read. -/
def ahead (p : Parser Unit) : Parser Bool := fun e s =>
  match p e s with
  | .done _ _ => .done true s
  | .fail _ => .done false s

/-- Succeeds, reading nothing, if a parser would succeed here. -/
def peek (p : Parser Unit) : Parser Unit := do check (← ahead p)

/-- Succeeds, reading nothing, if a parser would fail here. -/
def no (p : Parser Unit) : Parser Unit := do check (!(← ahead p))

/-- The start of the next lexeme. -/
def here : Parser Nat := fun e s => .done (s.next e) s

/-- The end of the last lexeme. -/
def lastEnd : Parser Nat := fun _ s => .done s.last s

/-- The source being read. -/
def source : Parser Source := fun e s => .done e.source s

/-- The rules and the text being read. -/
def env : Parser Env := fun e s => .done e s

/-- The next character to be read, blanks included. -/
def position : Parser Nat := fun _ s => .done s.pos s

/-- The character at the start of the next lexeme. -/
def nextChar : Parser Char := fun e s => .done (e.source.charAt (s.next e)) s

/-- The next lexeme if it is a word, else the empty text. -/
def nextWord : Parser String := fun e s =>
  let i := s.next e
  .done (e.source.text i (e.wordEnd i)) s

/-- The next lexeme if it is a punctuation sign, else the empty text. -/
def nextSign : Parser String := fun e s =>
  .done (String.ofList (e.punctuatorAt (s.next e))) s

/-- A row ends between the last lexeme and the next one. -/
def rowEnds : Parser Bool := fun e s =>
  .done ((e.source.slice s.pos (s.next e)).contains '\n') s

/-- Nothing is left to read. -/
def atEnd : Parser Bool := fun e s => .done (e.source.size ≤ s.next e) s

/-- Reads up to an index, as one lexeme that starts where the next lexeme does. -/
def consumeTo (j : Nat) : Parser Unit := fun e s =>
  let (_, found) := s.ahead e
  .done () { s with pos := j, last := j, comments := found ++ s.comments }

/-- Reads up to an index; blanks and comments are not told apart. -/
def jumpTo (j : Nat) : Parser Unit := fun _ s => .done () { s with pos := j, last := j }

/-- Reads a lexeme that a scanner recognises at the start of the next lexeme. -/
def lexeme (scan : Source → Nat → Option Nat) : Parser Unit := do
  let i ← here
  match scan (← source) i with
  | some j => consumeTo j
  | none => fail

/-- Reads a punctuation sign. -/
def sign (text : String) : Parser Unit := do
  let i ← here
  let e ← env
  if e.punctuatorAt i == text.toList then consumeTo (i + text.length)
  else check (text == ";" && e.repair.ended.contains i)

/-- Reads given characters, also where they begin a longer sign. -/
def exactly (text : String) : Parser Unit := do
  let i ← here
  let e ← env
  if e.source.hasAt i text.toList then consumeTo (i + text.length) else fail

/-- Reads one of several punctuation signs. -/
def signIn (texts : List String) : Parser Unit := do
  let t ← nextSign
  if texts.contains t then sign t else fail

/-- Reads a given word. -/
def word (text : String) : Parser Unit := do
  let i ← here
  let e ← env
  let j := e.wordEnd i
  if j != i && e.source.slice i j == text.toList then consumeTo j else fail

/-- Reads one of several words. -/
def wordIn (texts : List String) : Parser Unit := do
  let w ← nextWord
  if w != "" && texts.contains w then word w else fail

/-- Reads any word that is not among those reserved. -/
def freeWord (reserved : List String) : Parser Unit := do
  let w ← nextWord
  if w == "" || reserved.contains w then fail else word w

/-- Packs the nodes that a parser finishes into one node. -/
def node (kind : String) (p : Parser Unit) : Parser Unit := fun e s =>
  match p e { s with out := [] } with
  | .fail far => .fail far
  | .done _ s' =>
    let made :=
      if s'.pos == s.pos then Tree.node kind "" s.last s.last s'.out.reverse
      else Tree.node kind "" (s.next e) s'.last s'.out.reverse
    .done () { s' with out := made :: s.out }

/-- Packs the nodes that a parser finishes into one node, whose kind the parser tells at its
end. -/
def nodeOf (p : Parser String) : Parser Unit := fun e s =>
  match p e { s with out := [] } with
  | .fail far => .fail far
  | .done kind s' =>
    .done () { s' with out := Tree.node kind "" (s.next e) s'.last s'.out.reverse :: s.out }

/-- Packs the last finished node, in a given role, and the nodes that a parser finishes into one
node. -/
def extend (kind field : String) (p : Parser Unit) : Parser Unit := fun e s =>
  match s.out with
  | [] => .fail (max s.far (s.next e))
  | t :: rest =>
    match p e { s with out := [t.withField field] } with
    | .fail far => .fail far
    | .done _ s' =>
      .done () { s' with out := Tree.node kind "" t.first s'.last s'.out.reverse :: rest }

/-- Puts the nodes that a parser finishes into a role. -/
def field (name : String) (p : Parser Unit) : Parser Unit := fun e s =>
  match p e { s with out := [] } with
  | .fail far => .fail far
  | .done _ s' => .done () { s' with out := s'.out.map (·.withField name) ++ s.out }

/-- Puts the last finished node into a role. -/
def lastField (name : String) : Parser Unit := fun _ s =>
  match s.out with
  | [] => .done () s
  | t :: rest => .done () { s with out := t.withField name :: rest }

/-- Gives another kind to the last node that a parser finishes. -/
def renamed (kind : String) (p : Parser Unit) : Parser Unit := fun e s =>
  match p e s with
  | .fail far => .fail far
  | .done _ s' =>
    match s'.out with
    | [] => .done () s'
    | t :: rest => .done () { s' with out := t.withKind kind :: rest }

/-- The kind of the last finished node. -/
def lastKind : Parser String := fun _ s => .done ((s.out.head?.map Tree.kind).getD "") s

/-- Reads with a parser for which row ends are blank. -/
def acrossRows (p : Parser α) : Parser α := fun e s =>
  match p e { s with rows := false } with
  | .fail far => .fail far
  | .done a s' => .done a { s' with rows := s.rows }

/-- Reads the text between two signs. -/
def between (opening closing : String) (p : Parser Unit) : Parser Unit := do
  sign opening
  p
  sign closing

end Parser

/-- The productions of a grammar, over the parsers of its rules. -/
abbrev Grammar (R : Type) := (R → Parser Unit) → R → Parser Unit

namespace Grammar

/-- The parser of a rule whose nesting is at most `fuel` deep. -/
def run {R : Type} (g : Grammar R) : Nat → R → Parser Unit
  | 0, _ => Parser.fail
  | fuel + 1, r => g (run g fuel) r

end Grammar

/-- Puts the comments that were kept aside into a tree. -/
def attachComments (t : Tree) (comments : List Tree) : Tree :=
  comments.foldr Tree.insert t

/-- Reads a whole text with a parser: the tree, or the furthest place at which reading failed. -/
def parseWhole (lexis : Lexis) (source : Source) (repair : Repair) (rows : Bool)
    (p : Parser Unit) : Except Nat Tree :=
  let e : Env := ⟨source, lexis, repair⟩
  match p e (State.initial rows) with
  | .fail far => .error far
  | .done _ s =>
    let (i, found) := e.pass false (source.size + 1) s.pos []
    if i < source.size then .error (max s.far i)
    else
      match s.out with
      | [Tree.node kind f _ _ cs] =>
        .ok (attachComments (Tree.node kind f 0 source.size cs) (found ++ s.comments))
      | _ => .error s.far

end Syntax
end CodeAtlas

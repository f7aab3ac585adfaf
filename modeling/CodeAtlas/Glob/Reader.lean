import CodeAtlas.Glob.Basic

/-!
# Reading file name patterns

A backslash takes the character behind it as it is, brackets stand for one of several characters,
and braces for one of several patterns.  A pattern is refused when a brace has no partner, when a
range of characters runs backwards, when a backslash ends it, or, depending on the style, when a
bracket is never closed.
-/

namespace CodeAtlas
namespace Glob

/-- How the part in brackets ends. -/
inductive Bracket where
  | closed (ranges : List (Char × Char)) (rest : List Char)
  | stillOpen
  | backwards

/-- The last range with another end. -/
def extendRange (ranges : List (Char × Char)) (c : Char) : Option (List (Char × Char)) :=
  match ranges with
  | [] => none
  | (low, _) :: others => if c < low then none else some ((low, c) :: others)

/-- Reads the characters in brackets.

`isFirst` says that none was read, `inRange` that a hyphen waits for the end of its range; the
ranges are collected with the last one first. -/
def readBracket : List Char → Bool → Bool → List (Char × Char) → Bracket
  | [], _, _, _ => .stillOpen
  | c :: rest, isFirst, inRange, ranges =>
    if c == ']' && !isFirst then
      .closed (if inRange then ('-', '-') :: ranges else ranges).reverse rest
    else if c == '-' && !isFirst && !inRange then readBracket rest false true ranges
    else if inRange then
      match extendRange ranges c with
      | some ranges => readBracket rest false false ranges
      | none => .backwards
    else readBracket rest false false ((c, c) :: ranges)

/-- What was read of a pattern.

`previous` is the character read last and `branch` holds the tokens of the current branch, the last
one first.  For every brace that is still open, `groups` holds its finished branches and the
tokens in front of it. -/
structure Reading where
  previous : Option Char
  branch : List Token
  groups : List (List (List Token) × List Token)
  bracketsArePlain : Bool

namespace Reading

/-- Nothing was read. -/
def start : Reading := ⟨none, [], [], false⟩

/-- Adds a token to the current branch. -/
def push (r : Reading) (t : Token) (previous : Char) : Reading :=
  { r with branch := t :: r.branch, previous := some previous }

/-- Adds two stars that stand for nothing but themselves. -/
def pushStars (r : Reading) : Reading :=
  { r with branch := .anyRun :: .anyRun :: r.branch, previous := some '*' }

/-- Puts two stars in place of the slash in front of them. -/
def replaceSlash (r : Reading) (t : Token) (previous : Char) : Reading :=
  match r.branch with
  | .leading :: _ | .trailing :: _ => { r with previous := some previous }
  | _ :: before => { r with branch := t :: before, previous := some previous }
  | [] => r.push t previous

/-- Reads two stars, behind which the rest stands. -/
def readStars (r : Reading) (rest : List Char) : Reading × List Char :=
  if r.branch.isEmpty then
    match rest with
    | [] => (r.push .leading '*', [])
    | '/' :: more => (r.push .leading '/', more)
    | _ => (r.pushStars, rest)
  else
    let opensPart := r.previous == some '/' ||
      (!r.groups.isEmpty && (r.previous == some ',' || r.previous == some '{'))
    match opensPart, rest with
    | false, _ => (r.pushStars, rest)
    | true, [] => (r.replaceSlash .trailing '*', [])
    | true, '/' :: more => (r.replaceSlash .inner '/', more)
    | true, c :: _ =>
      if (c == ',' || c == '}') && !r.groups.isEmpty then (r.replaceSlash .trailing '*', rest)
      else (r.pushStars, rest)

/-- Opens a brace. -/
def openGroup (r : Reading) : Reading :=
  { r with previous := some '{', branch := [], groups := ([], r.branch) :: r.groups }

/-- Starts the next branch between braces; elsewhere a comma stands for itself. -/
def nextBranch (r : Reading) : Reading :=
  match r.groups with
  | [] => r.push (.literal ',') ','
  | (done, before) :: groups =>
    { r with
      previous := some ','
      branch := []
      groups := (done ++ [r.branch.reverse], before) :: groups }

/-- Closes a brace. -/
def closeGroup? (r : Reading) : Option Reading :=
  match r.groups with
  | [] => none
  | (done, before) :: groups =>
    some { r with
      previous := some '}'
      branch := .either (done ++ [r.branch.reverse]) :: before
      groups := groups }

end Reading

/-- Reads the characters in brackets behind the opening one. -/
def readOneOf (style : Style) (r : Reading) (rest : List Char) : Option (Reading × List Char) :=
  let negated := rest.head? == some '!' || rest.head? == some '^'
  match readBracket (if negated then rest.drop 1 else rest) true false [] with
  | .closed ranges rest => some (r.push (.oneOf negated ranges) ']', rest)
  | .stillOpen =>
    if style.bracketMayStayOpen then
      some ({ r.push (.literal '[') '[' with bracketsArePlain := true }, rest)
    else none
  | .backwards => none

/-- Reads a pattern. -/
def readFrom (style : Style) : Nat → Reading → List Char → Option Reading
  | 0, _, _ => none
  | _ + 1, r, [] => some r
  | fuel + 1, r, c :: rest =>
    match c, rest with
    | '?', _ => readFrom style fuel (r.push .any c) rest
    | '*', '*' :: more =>
      let (r, more) := r.readStars more
      readFrom style fuel r more
    | '*', _ => readFrom style fuel (r.push .anyRun c) rest
    | '{', _ => readFrom style fuel r.openGroup rest
    | '}', _ => do readFrom style fuel (← r.closeGroup?) rest
    | ',', _ => readFrom style fuel r.nextBranch rest
    | '\\', [] => none
    | '\\', d :: more => readFrom style fuel (r.push (.literal d) d) more
    | _, _ =>
      if c == '[' && !r.bracketsArePlain then do
        let (r, more) ← readOneOf style r rest
        readFrom style fuel r more
      else readFrom style fuel (r.push (.literal c) c) rest

/-- The pattern that a text stands for. -/
def read? (style : Style) (text : String) : Option Glob :=
  match readFrom style (text.length + 1) .start text.toList with
  | some r => if r.groups.isEmpty then some ⟨style, r.branch.reverse⟩ else none
  | none => none

end Glob
end CodeAtlas

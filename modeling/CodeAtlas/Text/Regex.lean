import CodeAtlas.Text.Blank
import CodeAtlas.Text.Word

/-!
# Regular expressions

An expression is read from its usual notation and then run on a text by computing, for a start
index, the list of all indices at which a match may end.  Only the question whether a text has a
match is asked, so neither groups nor greediness are kept.
-/

namespace CodeAtlas
namespace Text

/-- A regular expression. -/
inductive Regex where
  | nothing
  | char (p : Char → Bool)
  | seq (a b : Regex)
  | alt (a b : Regex)
  | star (a : Regex)
  | atStart
  | atEnd
  | boundary (inverted : Bool)

namespace Regex

/-- The members of a list of indices without repetitions. -/
def distinct (xs : List Nat) : List Nat :=
  xs.foldr (fun x acc => if acc.contains x then acc else x :: acc) []

/-- Repeats a step on a list of indices, collecting everything reached. -/
def closure (step : Nat → List Nat) : Nat → List Nat → List Nat
  | 0, reached => reached
  | fuel + 1, reached =>
    let next := distinct (reached ++ reached.flatMap step)
    if next.length ≤ reached.length then reached else closure step fuel next

/-- The indices at which a match that starts at `i` may end. -/
def ends (text : Array Char) : Regex → Nat → List Nat
  | nothing, i => [i]
  | char p, i =>
    match text[i]? with
    | some c => if p c then [i + 1] else []
    | none => []
  | seq a b, i => distinct ((ends text a i).flatMap (ends text b))
  | alt a b, i => distinct (ends text a i ++ ends text b i)
  | star a, i => closure (ends text a) (text.size + 1) [i]
  | atStart, i => if i == 0 then [i] else []
  | atEnd, i => if i == text.size then [i] else []
  | boundary inverted, i =>
    let before := if i == 0 then none else text[i - 1]?
    if isBoundary before text[i]? != inverted then [i] else []

/-- The text has a match somewhere. -/
def found (r : Regex) (text : String) : Bool :=
  let chars := text.toList.toArray
  (List.range (chars.size + 1)).any fun i => !(ends chars r i).isEmpty

/-! ## Reading the notation -/

/-- The class named by a letter behind a backslash. -/
def escapedClass? (c : Char) : Option (Char → Bool) :=
  match c with
  | 'd' => some Char.isDigit
  | 'D' => some fun d => !d.isDigit
  | 'w' => some isWordChar
  | 'W' => some fun d => !isWordChar d
  | 's' => some isBlank
  | 'S' => some fun d => !isBlank d
  | 'n' => some (· == '\n')
  | 't' => some (· == '\t')
  | 'r' => some (· == '\r')
  | 'f' => some (· == '\x0c')
  | 'v' => some (· == '\x0b')
  | 'a' => some (· == '\x07')
  | _ => if c.isAlphanum || c.toNat ≥ 0x80 then none else some (· == c)

/-- The rest of a character class, behind its opening bracket: what it admits and what follows. -/
def readClass : Nat → List Char → Option ((Char → Bool) × List Char)
  | 0, _ => none
  | _ + 1, [] => none
  | _ + 1, ']' :: rest => some ((fun _ => false), rest)
  | fuel + 1, '\\' :: c :: rest => do
    let p ← escapedClass? c
    let (q, rest) ← readClass fuel rest
    some ((fun d => p d || q d), rest)
  | fuel + 1, a :: '-' :: b :: rest =>
    if b == ']' || b == '\\' || a == '[' then do
      let (q, rest) ← readClass fuel ('-' :: b :: rest)
      some ((fun d => d == a || q d), rest)
    else if b < a then none
    else do
      let (q, rest) ← readClass fuel rest
      some ((fun d => (a ≤ d && d ≤ b) || q d), rest)
  | fuel + 1, a :: rest =>
    if a == '[' then none
    else do
      let (q, rest) ← readClass fuel rest
      some ((fun d => d == a || q d), rest)

/-- A character class, behind its opening bracket. -/
def readBracket (cs : List Char) : Option (Regex × List Char) :=
  let positive (cs : List Char) : Option ((Char → Bool) × List Char) :=
    match cs with
    | ']' :: rest => do
      let (q, rest) ← readClass (rest.length + 1) rest
      some ((fun d => d == ']' || q d), rest)
    | _ => readClass (cs.length + 1) cs
  match cs with
  | '^' :: rest => (positive rest).map fun p => (char fun d => !p.1 d, p.2)
  | _ => (positive cs).map fun p => (char p.1, p.2)

/-- A number of repetitions. -/
def repeated (r : Regex) : Nat → Regex
  | 0 => nothing
  | n + 1 => seq r (repeated r n)

/-- At most a number of repetitions. -/
def atMost (r : Regex) : Nat → Regex
  | 0 => nothing
  | n + 1 => alt nothing (seq r (atMost r n))

/-- The digits of a number and what follows. -/
def readNumber (cs : List Char) : Option (Nat × List Char) :=
  let digits := cs.takeWhile Char.isDigit
  if digits.isEmpty then none
  else some (digits.foldl (fun n d => 10 * n + (d.toNat - '0'.toNat)) 0, cs.dropWhile Char.isDigit)

/-- The bounds of a counted repetition, behind its opening brace. -/
def readCount (cs : List Char) : Option (Nat × Option Nat × List Char) := do
  let (low, rest) ← readNumber cs
  match rest with
  | '}' :: rest => some (low, some low, rest)
  | ',' :: '}' :: rest => some (low, none, rest)
  | ',' :: rest =>
    let (high, rest) ← readNumber rest
    match rest with
    | '}' :: rest => if low ≤ high then some (low, some high, rest) else none
    | _ => none
  | _ => none

/-- The repetition signs behind an expression. -/
def readRepetition : Nat → Regex → List Char → Option (Regex × List Char)
  | 0, _, _ => none
  | fuel + 1, r, cs =>
    let lazily (rest : List Char) : List Char :=
      match rest with
      | '?' :: more => more
      | _ => rest
    match cs with
    | '*' :: rest => readRepetition fuel (star r) (lazily rest)
    | '+' :: rest => readRepetition fuel (seq r (star r)) (lazily rest)
    | '?' :: rest => readRepetition fuel (alt nothing r) (lazily rest)
    | '{' :: rest => do
      let (low, high, rest) ← readCount rest
      let tail := match high with
        | none => star r
        | some h => atMost r (h - low)
      readRepetition fuel (seq (repeated r low) tail) (lazily rest)
    | _ => some (r, cs)

/-- Reads alternatives up to a closing parenthesis or the end.

`alternatives` holds what stands before the last bar and `sofar` what was read behind it. -/
def readFrom : Nat → Option Regex → Regex → List Char → Option (Regex × List Char)
  | 0, _, _, _ => none
  | fuel + 1, alternatives, sofar, cs =>
    let whole := match alternatives with
      | none => sofar
      | some a => alt a sofar
    let go (r : Regex) (rest : List Char) : Option (Regex × List Char) := do
      let (r, rest) ← readRepetition (rest.length + 1) r rest
      readFrom fuel alternatives (seq sofar r) rest
    match cs with
    | [] => some (whole, [])
    | ')' :: _ => some (whole, cs)
    | '|' :: rest => readFrom fuel (some whole) nothing rest
    | '(' :: rest =>
      let body := match rest with
        | '?' :: ':' :: more => more
        | _ => rest
      match body with
      | '?' :: _ => none
      | _ =>
        match readFrom fuel none nothing body with
        | some (r, ')' :: rest) => go r rest
        | _ => none
    | '[' :: rest => do
      let (r, rest) ← readBracket rest
      go r rest
    | '.' :: rest => go (char (· != '\n')) rest
    | '^' :: rest => go atStart rest
    | '$' :: rest => go atEnd rest
    | '\\' :: 'b' :: rest => go (boundary false) rest
    | '\\' :: 'B' :: rest => go (boundary true) rest
    | '\\' :: 'A' :: rest => go atStart rest
    | '\\' :: 'z' :: rest => go atEnd rest
    | '\\' :: c :: rest => do
      let p ← escapedClass? c
      go (char p) rest
    | c :: rest =>
      if c == '*' || c == '+' || c == '?' || c == '{' || c == '\\' then none
      else go (char (· == c)) rest

/-- The expression that a notation stands for. -/
def read? (pattern : String) : Option Regex :=
  match readFrom (2 * pattern.length + 2) none nothing pattern.toList with
  | some (r, []) => some r
  | _ => none

/-- The characters that have a meaning of their own in the notation. -/
def isMeta (c : Char) : Bool :=
  "\\.+*?()|[]\x7b\x7d^$#&-~".toList.contains c

/-- The notation that stands for a text itself. -/
def escape (text : String) : String :=
  String.ofList (text.toList.flatMap fun c => if isMeta c then ['\\', c] else [c])

end Regex
end Text
end CodeAtlas

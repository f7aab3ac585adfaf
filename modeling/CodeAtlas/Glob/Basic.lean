/-!
# File name patterns

A pattern is matched against the bytes of a whole path.  `?` stands for one byte and `*` for any
number of them; in the style in which slashes are special neither of the two stands for a slash.
Two stars between slashes stand for any number of folders.
-/

namespace CodeAtlas
namespace Glob

/-- A part of a pattern.

Two stars are `leading` in front of a pattern, `inner` between two slashes, both of which are
part of it, and `trailing` behind a slash, which is part of it. -/
inductive Token where
  | literal (c : Char)
  | any
  | anyRun
  | leading
  | inner
  | trailing
  | oneOf (negated : Bool) (ranges : List (Char × Char))
  | either (branches : List (List Token))
deriving Inhabited

/-- How patterns are read: whether wildcards stop at slashes, and whether a bracket that is never
closed stands for itself. -/
structure Style where
  slashIsSpecial : Bool
  bracketMayStayOpen : Bool

/-- The bytes of a text. -/
def bytes (s : String) : List UInt8 := s.toList.flatMap String.utf8EncodeChar

/-- The byte of a slash. -/
def slash : UInt8 := 47

/-- What is left of a text behind a given beginning. -/
def stripBytes? : List UInt8 → List UInt8 → Option (List UInt8)
  | [], s => some s
  | _ :: _, [] => none
  | a :: piece, b :: s => if a = b then stripBytes? piece s else none

/-- The text and all its proper endings. -/
def endings : List UInt8 → List (List UInt8)
  | [] => [[]]
  | b :: s => (b :: s) :: endings s

/-- The endings of a text that come before or right at its first slash. -/
def endingsToSlash : List UInt8 → List (List UInt8)
  | [] => [[]]
  | b :: s => if b = slash then [b :: s] else (b :: s) :: endingsToSlash s

/-- The endings of a text that stand right behind a slash. -/
def behindSlashes : List UInt8 → List (List UInt8)
  | [] => []
  | b :: s => if b = slash then s :: behindSlashes s else behindSlashes s

/-- The bytes that a range of characters in brackets stands for: the bytes of its ends, and those
between the last byte of the one and the first byte of the other. -/
def rangeHolds (range : Char × Char) (b : UInt8) : Bool :=
  let low := String.utf8EncodeChar range.1
  let high := String.utf8EncodeChar range.2
  low.contains b || (range.1 != range.2 && (high.contains b ||
    (low.getLast?.any (· ≤ b) && high.head?.any (b ≤ ·))))

mutual

/-- A branch that stands for no text at all, not even the empty one, is left out. -/
def Token.isVoid : Token → Bool
  | .either branches => allVoid branches
  | _ => false

/-- Every token of a branch is void. -/
def isVoidBranch : List Token → Bool
  | [] => true
  | t :: ts => t.isVoid && isVoidBranch ts

/-- Every branch is void. -/
def allVoid : List (List Token) → Bool
  | [] => true
  | ts :: rest => isVoidBranch ts && allVoid rest

end

mutual

/-- A token matches a beginning of a text such that `k` holds of the rest. -/
def Token.accepts (style : Style) (k : List UInt8 → Bool) : Token → List UInt8 → Bool
  | .literal c, s => (stripBytes? (String.utf8EncodeChar c) s).any k
  | .any, s =>
    match s with
    | [] => false
    | b :: rest => !(style.slashIsSpecial && b == slash) && k rest
  | .anyRun, s => (if style.slashIsSpecial then endingsToSlash s else endings s).any k
  | .leading, s => k s || (behindSlashes s).any k
  | .inner, s =>
    match s with
    | [] => false
    | b :: rest => b == slash && (k rest || (behindSlashes rest).any k)
  | .trailing, s =>
    match s with
    | [] => false
    | b :: rest => b == slash && (endings rest).any k
  | .oneOf negated ranges, s =>
    match s with
    | [] => false
    | b :: rest => (ranges.any fun r => rangeHolds r b) != negated && k rest
  | .either branches, s => if allVoid branches then k s else branchesMatch style k branches s

/-- Tokens match a beginning of a text such that `k` holds of the rest. -/
def tokensMatch (style : Style) (k : List UInt8 → Bool) : List Token → List UInt8 → Bool
  | [], s => k s
  | t :: ts, s => t.accepts style (tokensMatch style k ts) s

/-- One of several branches matches a beginning of a text such that `k` holds of the rest. -/
def branchesMatch (style : Style) (k : List UInt8 → Bool) :
    List (List Token) → List UInt8 → Bool
  | [], _ => false
  | ts :: rest, s =>
    (!isVoidBranch ts && tokensMatch style k ts s) || branchesMatch style k rest s

end

end Glob

/-- A file name pattern. -/
structure Glob where
  style : Glob.Style
  tokens : List Glob.Token

namespace Glob

/-- The pattern matches a path as a whole; two stars alone match every path. -/
def accepts (g : Glob) (path : String) : Bool :=
  match g.tokens with
  | [.leading] => true
  | tokens => tokensMatch g.style List.isEmpty tokens (bytes path)

end Glob
end CodeAtlas

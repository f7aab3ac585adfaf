import CodeAtlas.Span

/-!
# Source texts

A source text keeps its characters in an array, so that a place in it is a character index, and
beside them a table that turns an index into a byte offset, a row and a column.
-/

namespace CodeAtlas
namespace Syntax

/-- What stands before a place of a text: the bytes, and the position reached. -/
structure Mark where
  byte : Nat
  position : Position
deriving DecidableEq, Repr, Inhabited

namespace Mark

/-- The mark at the start of every text. -/
def origin : Mark := ⟨0, ⟨0, 0⟩⟩

/-- The mark behind one more character. -/
def after (m : Mark) (c : Char) : Mark :=
  if c = '\n' then ⟨m.byte + c.utf8Size, ⟨m.position.row + 1, 0⟩⟩
  else ⟨m.byte + c.utf8Size, ⟨m.position.row, m.position.column + c.utf8Size⟩⟩

end Mark

/-- A text with the marks of all its places, the end included. -/
structure Source where
  chars : Array Char
  marks : Array Mark
deriving Inhabited

namespace Source

/-- The marks of all places of a text, from a first mark on. -/
def marksFrom (m : Mark) : List Char → List Mark
  | [] => [m]
  | c :: rest => m :: marksFrom (m.after c) rest

/-- The source of a text. -/
def ofString (text : String) : Source where
  chars := text.toList.toArray
  marks := (marksFrom Mark.origin text.toList).toArray

/-- The number of characters. -/
def size (s : Source) : Nat := s.chars.size

/-- The character at an index. -/
def get? (s : Source) (i : Nat) : Option Char := s.chars[i]?

/-- The character at an index, or a null character at the end of the text. -/
def charAt (s : Source) (i : Nat) : Char := s.chars.getD i '\x00'

/-- The mark of a place; behind the text it is the mark of its end. -/
def markAt (s : Source) (i : Nat) : Mark :=
  s.marks.getD i (s.marks.back?.getD Mark.origin)

/-- The characters from one index up to another. -/
def slice (s : Source) (first stop : Nat) : List Char :=
  (s.chars.extract first stop).toList

/-- The text from one index up to another. -/
def text (s : Source) (first stop : Nat) : String :=
  String.ofList (s.slice first stop)

/-- The span from one index up to another. -/
def span (s : Source) (first stop : Nat) : Span where
  startByte := (s.markAt first).byte
  endByte := (s.markAt stop).byte
  start := (s.markAt first).position
  stop := (s.markAt stop).position

/-- The characters of `word` stand at index `i`. -/
def hasAt (s : Source) (i : Nat) : List Char → Bool
  | [] => true
  | c :: rest => s.get? i == some c && hasAt s (i + 1) rest

/-- The first index from `i` on whose character fails `p`, looking at most `fuel` characters. -/
def skipWhile (s : Source) (p : Char → Bool) : Nat → Nat → Nat
  | 0, i => i
  | fuel + 1, i =>
    match s.get? i with
    | some c => if p c then skipWhile s p fuel (i + 1) else i
    | none => i

/-- The first index from `i` on whose character fails `p`. -/
def scanWhile (s : Source) (p : Char → Bool) (i : Nat) : Nat :=
  s.skipWhile p s.size i

/-- The first index from `i` on where `word` stands, looking at most `fuel` places. -/
def findFrom (s : Source) (word : List Char) : Nat → Nat → Option Nat
  | 0, _ => none
  | fuel + 1, i => if s.hasAt i word then some i else findFrom s word fuel (i + 1)

/-- The index behind the first `word` from `i` on, or the end of the text. -/
def endOfFirst (s : Source) (word : List Char) (i : Nat) : Nat :=
  match s.findFrom word (s.size + 1 - i) i with
  | some j => j + word.length
  | none => s.size

/-- The index of the end of the row that `i` stands on. -/
def endOfRow (s : Source) (i : Nat) : Nat :=
  s.scanWhile (· != '\n') i

end Source
end Syntax
end CodeAtlas

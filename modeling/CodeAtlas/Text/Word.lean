import CodeAtlas.Text.WordTable

/-!
# Words

A word character is a letter, a decimal digit, a mark or a connecting character such as `_`.  A
word stands as a whole in a text when no word character touches it at an edge where it has a word
character itself, so `x` stands in `a.x()` and not in `xs`, while `$this` stands in `$this->x`.
Replacing a word changes the places where it stands as a whole, taken from left to right.
-/

namespace CodeAtlas
namespace Text

/-- The number lies in one of the ranges. -/
def inRanges (ranges : Array (Nat × Nat)) (n : Nat) : Bool :=
  ranges.any fun r => r.1 ≤ n && n ≤ r.2

/-- The character is a word character. -/
def isWordChar (c : Char) : Bool :=
  if c.toNat < 0x80 then c.isAlphanum || c == '_'
  else inRanges lettersAndDigits c.toNat || inRanges marksAndJoiners c.toNat

/-- The character is alphabetic or numeric. -/
def isAlphanumeric (c : Char) : Bool :=
  if c.toNat < 0x80 then c.isAlphanum
  else inRanges lettersAndDigits c.toNat || inRanges otherNumbers c.toNat

/-- The character at an edge of a word asks for a word boundary there. -/
def wantsBoundary (c : Option Char) : Bool :=
  match c with
  | none => false
  | some c => isAlphanumeric c || c == '_'

/-- Exactly one of the two neighbours is a word character. -/
def isBoundary (before after : Option Char) : Bool :=
  before.any isWordChar != after.any isWordChar

/-- What follows `word` when it stands as a whole at the front of `cs`, after `before`. -/
def wordAtFront? (word : List Char) (before : Option Char) (cs : List Char) :
    Option (List Char) :=
  match word.isPrefixOf cs with
  | false => none
  | true =>
    let rest := cs.drop word.length
    let opens := !wantsBoundary word.head? || isBoundary before cs.head?
    let closes := !wantsBoundary word.getLast? || isBoundary word.getLast? rest.head?
    if opens && closes then some rest else none

/-- Replaces `word` wherever it stands as a whole and `keep` does not protect it.

`skip` counts the characters of an occurrence that are still to be passed over, and `keep` looks
at the character before the occurrence. -/
def replaceWordFrom (word replacement : List Char) (keep : Option Char → Bool) :
    Nat → Option Char → List Char → List Char
  | _, _, [] => []
  | skip + 1, _, c :: rest => replaceWordFrom word replacement keep skip (some c) rest
  | 0, before, c :: rest =>
    match wordAtFront? word before (c :: rest) with
    | none => c :: replaceWordFrom word replacement keep 0 (some c) rest
    | some _ =>
      let copied := if keep before then word else replacement
      copied ++ replaceWordFrom word replacement keep (word.length - 1) (some c) rest

/-- Replaces every whole occurrence of a word that is not empty. -/
def replaceWord (word replacement : String) (text : String) : String :=
  if word.isEmpty then text
  else String.ofList
    (replaceWordFrom word.toList replacement.toList (fun _ => false) 0 none text.toList)

/-- Replaces every whole occurrence of a word that does not follow a dot. -/
def replaceFreeWord (word replacement : String) (text : String) : String :=
  if word.isEmpty then text
  else String.ofList
    (replaceWordFrom word.toList replacement.toList (· == some '.') 0 none text.toList)

end Text
end CodeAtlas

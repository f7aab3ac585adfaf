/-!
# Cutting texts at a character

A text is cut at every occurrence of a separator, so that joining the pieces again gives the text
back and a text without the separator is one piece.
-/

namespace CodeAtlas
namespace Text

/-- The pieces between the separators. -/
def splitChars (separator : Char) : List Char → List (List Char)
  | [] => [[]]
  | c :: rest =>
    if c = separator then [] :: splitChars separator rest
    else
      match splitChars separator rest with
      | [] => [[c]]
      | piece :: pieces => (c :: piece) :: pieces

/-- The pieces with the separator between them. -/
def joinChars (separator : List Char) : List (List Char) → List Char
  | [] => []
  | [piece] => piece
  | piece :: pieces => piece ++ separator ++ joinChars separator pieces

/-- The pieces of a text between separators. -/
def split (separator : Char) (s : String) : List String :=
  (splitChars separator s.toList).map String.ofList

/-- The texts with a separator between them. -/
def join (separator : String) (pieces : List String) : String :=
  String.ofList (joinChars separator.toList (pieces.map String.toList))

/-- A text repeated a number of times. -/
def repeated (s : String) (n : Nat) : String :=
  String.join (List.replicate n s)

/-- A number of spaces. -/
def spaces (n : Nat) : String :=
  String.ofList (List.replicate n ' ')

/-- The number of row ends in a text. -/
def rowEnds (s : String) : Nat :=
  s.toList.count '\n'

/-- The text in front of the first row end, without the carriage return of that end. -/
def firstRow (s : String) : String :=
  let cs := s.toList
  let row := cs.takeWhile (· != '\n')
  if row.length < cs.length && row.getLast? == some '\r' then String.ofList row.dropLast
  else String.ofList row

/-- The text ends with another one. -/
def endsWith (s ending : String) : Bool :=
  ending.toList.isSuffixOf s.toList

/-- The text starts with another one. -/
def startsWith (s beginning : String) : Bool :=
  beginning.toList.isPrefixOf s.toList

/-- The text without a beginning that it has. -/
def dropBeginning? (beginning s : String) : Option String :=
  if startsWith s beginning then some (String.ofList (s.toList.drop beginning.length)) else none

/-- The text without an ending that it has. -/
def dropEnding? (ending s : String) : Option String :=
  if endsWith s ending then some (String.ofList (s.toList.take (s.length - ending.length)))
  else none

/-- The text without the occurrences of a character that it starts with. -/
def trimStartOf (c : Char) (s : String) : String :=
  String.ofList (s.toList.dropWhile (· == c))

/-- The text without the occurrences of a character that it ends with. -/
def trimEndOf (c : Char) (s : String) : String :=
  String.ofList (s.toList.reverse.dropWhile (· == c)).reverse

/-- The text with one character in place of another. -/
def replaceChar (old new : Char) (s : String) : String :=
  String.ofList (s.toList.map fun c => if c = old then new else c)

end Text
end CodeAtlas

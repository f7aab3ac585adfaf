/-!
# Blank characters

The blank characters are the twenty-five code points with the white-space property.  A text is
trimmed by taking them off its two ends; a text that holds nothing else is blank.
-/

namespace CodeAtlas
namespace Text

/-- The character has the white-space property. -/
def isBlank (c : Char) : Bool :=
  let n := c.toNat
  (9 ≤ n && n ≤ 13) || n == 32 || n == 0x85 || n == 0xA0 || n == 0x1680 ||
    (0x2000 ≤ n && n ≤ 0x200A) || n == 0x2028 || n == 0x2029 || n == 0x202F ||
    n == 0x205F || n == 0x3000

/-- The text without the blanks it starts with. -/
def trimStartChars (cs : List Char) : List Char :=
  cs.dropWhile isBlank

/-- The text without the blanks it ends with. -/
def trimEndChars (cs : List Char) : List Char :=
  (cs.reverse.dropWhile isBlank).reverse

/-- The text without the blanks at its two ends. -/
def trimChars (cs : List Char) : List Char :=
  trimEndChars (trimStartChars cs)

/-- The text without the blanks it starts with. -/
def trimStart (s : String) : String :=
  String.ofList (trimStartChars s.toList)

/-- The text without the blanks at its two ends. -/
def trim (s : String) : String :=
  String.ofList (trimChars s.toList)

/-- The text holds blanks only. -/
def isBlankText (s : String) : Bool :=
  s.toList.all isBlank

/-- The maximal runs of characters that are not blank. -/
def blankSeparatedChars : List Char → List (List Char)
  | [] => []
  | c :: rest =>
    if isBlank c then blankSeparatedChars rest
    else
      match rest, blankSeparatedChars rest with
      | [], _ => [[c]]
      | d :: _, runs =>
        if isBlank d then [c] :: runs
        else
          match runs with
          | [] => [[c]]
          | run :: others => (c :: run) :: others

end Text
end CodeAtlas

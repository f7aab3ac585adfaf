/-!
# Dotted names

An identifier here is made of ASCII letters, digits and underscores and does not start with a
digit; a dotted name is a row of identifiers with dots between them.
-/

namespace CodeAtlas
namespace Text

/-- The character may start an identifier. -/
def startsIdentifier (c : Char) : Bool := c.isAlpha || c == '_'

/-- The character may stand in an identifier. -/
def continuesIdentifier (c : Char) : Bool := c.isAlphanum || c == '_'

/-- The dotted name at the front of a text whose first character starts an identifier, and what
follows it.  `inside` says that an identifier has begun. -/
def takeDotted : Bool → List Char → List Char × List Char
  | _, [] => ([], [])
  | true, '.' :: c :: rest =>
    if startsIdentifier c then
      let (name, after) := takeDotted true rest
      ('.' :: c :: name, after)
    else ([], '.' :: c :: rest)
  | true, c :: rest =>
    if continuesIdentifier c then
      let (name, after) := takeDotted true rest
      (c :: name, after)
    else ([], c :: rest)
  | false, c :: rest =>
    if startsIdentifier c then
      let (name, after) := takeDotted true rest
      (c :: name, after)
    else ([], c :: rest)

/-- The whole text is a dotted name. -/
def isDottedChars (cs : List Char) : Bool :=
  match takeDotted false cs with
  | (name, after) => !name.isEmpty && after.isEmpty

/-- The whole text is a dotted name. -/
def isDotted (s : String) : Bool := isDottedChars s.toList

/-- The dotted names in a text; `skip` counts characters that belong to the last one. -/
def dottedNamesFrom : Nat → List Char → List (List Char)
  | _, [] => []
  | skip + 1, _ :: rest => dottedNamesFrom skip rest
  | 0, c :: rest =>
    match (takeDotted false (c :: rest)).1 with
    | [] => dottedNamesFrom 0 rest
    | name => name :: dottedNamesFrom (name.length - 1) rest

/-- The dotted names in a text, each as long as possible. -/
def dottedNames (s : String) : List String :=
  (dottedNamesFrom 0 s.toList).map String.ofList

end Text
end CodeAtlas

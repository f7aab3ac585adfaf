import CodeAtlas.Glob.Reader
import CodeAtlas.Text.Blank
import CodeAtlas.Text.Split

/-!
# Ignore files

An ignore file holds one pattern a row, and the last pattern that matches a path decides.  A pattern
with an exclamation mark in front of it keeps what it matches; one with a slash behind it matches
folders only.  A pattern without a slash inside it matches at any depth, and any other one from
the folder of the file on.  Rows that are empty, that start with a number sign, or that hold no
valid pattern say nothing.
-/

namespace CodeAtlas
namespace Ignore

/-- What becomes of a path. -/
inductive Verdict where
  | ignored
  | kept
deriving DecidableEq, Repr

/-- One row of an ignore file. -/
structure Rule where
  glob : Glob
  verdict : Verdict
  foldersOnly : Bool

/-- How the patterns are read. -/
def style : Glob.Style := ⟨true, true⟩

/-- A row without the blanks behind it, unless the last of them is escaped. -/
def trimRow (row : List Char) : List Char :=
  if ['\\', ' '].isSuffixOf row then row else (row.reverse.dropWhile Text.isBlank).reverse

/-- The marks in front of a pattern: whether it keeps, whether it starts with a slash, and what
stands behind the marks. -/
def cutFront (row : List Char) : Bool × Bool × List Char :=
  match row with
  | '\\' :: '!' :: _ | '\\' :: '#' :: _ => (false, false, row.drop 1)
  | '!' :: '/' :: rest => (true, true, rest)
  | '!' :: rest => (true, false, rest)
  | '/' :: rest => (false, true, rest)
  | _ => (false, false, row)

/-- The pattern without a slash at its end, and whether there was one. -/
def cutBack (pattern : List Char) : Bool × List Char :=
  match pattern.reverse with
  | '/' :: '\\' :: rest => (true, rest.reverse)
  | '/' :: rest => (true, rest.reverse)
  | _ => (false, pattern)

/-- The pattern that is matched against paths below the folder of the file. -/
def complete (anchored : Bool) (pattern : List Char) : List Char :=
  let free := !anchored && !pattern.contains '/' && pattern != ['*', '*']
  let pattern := if free then ['*', '*', '/'] ++ pattern else pattern
  if ['/', '*', '*'].isSuffixOf pattern then pattern ++ ['/', '*'] else pattern

/-- The rule of a row. -/
def rule? (row : String) : Option Rule :=
  match trimRow row.toList with
  | [] | '#' :: _ => none
  | row =>
    let (keeps, anchored, pattern) := cutFront row
    let (foldersOnly, pattern) := cutBack pattern
    (Glob.read? style (String.ofList (complete anchored pattern))).map fun glob =>
      ⟨glob, if keeps then .kept else .ignored, foldersOnly⟩

/-- The bytes cut at every row end. -/
def byteRows : List UInt8 → List (List UInt8)
  | [] => [[]]
  | b :: rest =>
    if b == 10 then [] :: byteRows rest
    else
      match byteRows rest with
      | [] => [[b]]
      | row :: rows => (b :: row) :: rows

/-- The rows without the carriage returns of their ends; the last row has no end. -/
def dropReturns : List (List UInt8) → List (List UInt8)
  | [] => []
  | [row] => [row]
  | row :: rows => (if row.getLast? == some 13 then row.dropLast else row) :: dropReturns rows

/-- The rows of a file up to the first one that is not text. -/
def textRows : List (List UInt8) → List String
  | [] => []
  | row :: rows =>
    match String.fromUTF8? ⟨row.toArray⟩ with
    | some s => s :: textRows rows
    | none => []

/-- The rows of a file; a byte order mark in front of the first one is left out. -/
def rows (content : ByteArray) : List String :=
  match textRows (dropReturns (byteRows content.toList)) with
  | [] => []
  | first :: rest => Text.trimStartOf '\uFEFF' first :: rest

/-- The rules of a file. -/
def rules (content : ByteArray) : List Rule := (rows content).filterMap rule?

/-- What the rules of a file say about a path below its folder. -/
def verdict? (rules : List Rule) (path : String) (isFolder : Bool) : Option Verdict :=
  (rules.reverse.find? fun r => (!r.foldersOnly || isFolder) && r.glob.accepts path).map
    (·.verdict)

end Ignore
end CodeAtlas

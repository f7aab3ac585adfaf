import CodeAtlas.Text.Split

/-!
# Paths

A path is a text whose segments are separated by slashes; it is rooted when it starts with one.
Empty segments and `.` name nothing, except a `.` that opens a path without a root.  All rules
here are lexical: no file system is asked.

Normalising drops what names nothing and lets `..` undo the segment before it, where there is
one.  Joining puts one path behind another, unless the second is rooted, and normalises.
-/

namespace CodeAtlas
namespace Path

/-- The path starts at the root. -/
def isRooted (p : String) : Bool :=
  p.toList.head? == some '/'

/-- The segments of a path, also those that name nothing. -/
def rawSegments (p : String) : List (List Char) :=
  Text.splitChars '/' p.toList

/-- The segment names something. -/
def names (segment : List Char) : Bool :=
  !(segment == [] || segment == ['.'])

/-- What a path names, segment by segment: `/` for the root and `.` for an opening dot. -/
def components (p : String) : List (List Char) :=
  let raw := rawSegments p
  if isRooted p then ['/'] :: raw.filter names
  else
    match raw with
    | ['.'] :: rest => ['.'] :: rest.filter names
    | _ => raw.filter names

/-- The two paths name the same segments. -/
def same (p q : String) : Bool :=
  components p == components q

/-! ## Normal form -/

/-- Adds a segment behind others: `..` takes the last one away. -/
def pushSegment (sofar : List (List Char)) (segment : List Char) : List (List Char) :=
  if !names segment then sofar
  else if segment == ['.', '.'] then sofar.dropLast
  else sofar ++ [segment]

/-- The segments of the normal form. -/
def normalSegments (p : String) : List (List Char) :=
  (rawSegments p).foldl pushSegment []

/-- The path with given segments. -/
def render (rooted : Bool) (segments : List (List Char)) : String :=
  let body := Text.joinChars ['/'] segments
  String.ofList (if rooted then '/' :: body else body)

/-- The normal form of a path. -/
def normalize (p : String) : String :=
  render (isRooted p) (normalSegments p)

/-- One path behind another, as it is written. -/
def append (base p : String) : String :=
  if isRooted p then p
  else if base.isEmpty || Text.endsWith base "/" then base ++ p
  else base ++ "/" ++ p

/-- The normal form of one path behind another. -/
def join (base p : String) : String :=
  normalize (append base p)

/-- A rooted path that names the same as a path that starts at a folder.  Segments that name
nothing are dropped, `..` is kept, and so are a slash at the end and exactly two at the start. -/
def absolute (here p : String) : String :=
  let segments := (rawSegments p).filter names
  let raw := p.toList
  let start :=
    if ['/', '/', '/'].isPrefixOf raw then "/"
    else if ['/', '/'].isPrefixOf raw then "//"
    else if isRooted p then "/"
    else here
  let path := segments.foldl (fun q s => append q (String.ofList s)) start
  if Text.endsWith p "/" && !Text.endsWith path "/" then path ++ "/" else path

/-! ## Parts of a path -/

/-- Segments without those at the end that name nothing; an opening dot is kept. -/
def trimSegments (rooted : Bool) (raw : List (List Char)) : List (List Char) :=
  let kept := (raw.reverse.dropWhile fun s => !names s).reverse
  match kept, raw with
  | [], ['.'] :: _ => if rooted then [] else [['.']]
  | _, _ => kept

/-- The segments behind the root. -/
def body (p : String) : List (List Char) :=
  if isRooted p then (rawSegments p).drop 1 else rawSegments p

/-- The path without its last segment. -/
def parent? (p : String) : Option String :=
  let rooted := isRooted p
  match trimSegments rooted (body p) with
  | [] => none
  | segments => some (render rooted (trimSegments rooted segments.dropLast))

/-- The last segment, if it is a name. -/
def fileName? (p : String) : Option String :=
  match (components p).getLast? with
  | none => none
  | some s =>
    if s == ['/'] || s == ['.'] || s == ['.', '.'] then none else some (String.ofList s)

/-- A file name cut at its last dot, which must not be its first character. -/
def cutExtension (file : String) : String × Option String :=
  let pieces := Text.split '.' file
  match pieces.dropLast, pieces.getLast? with
  | [], _ => (file, none)
  | [""], _ => (file, none)
  | before, some after => (Text.join "." before, some after)
  | _, none => (file, none)

/-- The file name up to its last dot. -/
def fileStem? (p : String) : Option String :=
  (fileName? p).map fun f => (cutExtension f).1

/-- What stands behind the last dot of the file name. -/
def extension? (p : String) : Option String :=
  (fileName? p).bind fun f => (cutExtension f).2

/-- The path cut behind the stem of its file name. -/
def withoutExtension (p : String) : String :=
  match fileStem? p with
  | none => p
  | some stem =>
    let rooted := isRooted p
    render rooted ((trimSegments rooted (body p)).dropLast ++ [stem.toList])

end Path
end CodeAtlas

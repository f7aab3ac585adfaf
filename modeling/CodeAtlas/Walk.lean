import CodeAtlas.Disk
import CodeAtlas.Exclusion
import CodeAtlas.Ignore
import CodeAtlas.Index

/-!
# Walks through folders

A walk collects the files below a folder whose language is known.  It passes over entries that an
ignore file names, hidden entries, and excluded paths, and does not enter such folders.  The ignore
files of a folder speak about everything below it, also when the walk starts further down; among
files of one kind the innermost one decides, and the kinds are asked in a fixed order.
-/

namespace CodeAtlas
namespace Walk

/-- The ignore files of one folder, and the way from there to the folder that is walked through,
which is empty or ends with a slash. -/
structure Level where
  way : String
  plain : List Ignore.Rule
  versioned : List Ignore.Rule
  excluded : List Ignore.Rule

/-- The rules of a file among entries. -/
def rulesOf (entries : List Entry) (name : String) : List Ignore.Rule :=
  match Entry.file? entries name with
  | some content => Ignore.rules content
  | none => []

/-- The rules in the folder of a repository. -/
def repositoryRules (entries : List Entry) : List Ignore.Rule :=
  match (Entry.folder? entries ".git").bind (Entry.folder? · "info") with
  | some info => rulesOf info "exclude"
  | none => []

/-- The level of a folder. -/
def Level.of (settings : Settings) (entries : List Entry) : Level where
  way := ""
  plain := rulesOf entries ".ignore"
  versioned := if settings.respectIgnoreFiles then rulesOf entries ".gitignore" else []
  excluded := if settings.respectIgnoreFiles then repositoryRules entries else []

/-- The levels above and at a folder that is entered, the innermost first. -/
def enter (settings : Settings) (levels : List Level) (name : String) (entries : List Entry) :
    List Level :=
  Level.of settings entries :: levels.map fun l => { l with way := l.way ++ name ++ "/" }

/-- What the ignore files say about an entry. -/
def verdict? (levels : List Level) (name : String) (isFolder : Bool) : Option Ignore.Verdict :=
  let ask (rules : Level → List Ignore.Rule) : Option Ignore.Verdict :=
    levels.findSome? fun l => Ignore.verdict? (rules l) (l.way ++ name) isFolder
  match ask Level.plain with
  | some v => some v
  | none =>
    match ask Level.versioned with
    | some v => some v
    | none => ask Level.excluded

/-- The name marks a hidden entry. -/
def isHidden (name : String) : Bool := Text.startsWith name "."

/-- What a walk is guided by. -/
structure Guide where
  settings : Settings
  exclusion : Exclusion

/-- The walk passes over an entry; `path` is where it stands below the start of the walk. -/
def passesOver (g : Guide) (levels : List Level) (path : String) (e : Entry) : Bool :=
  let byRule := match verdict? levels e.name e.isFolder with
    | some .ignored => true
    | some .kept => false
    | none => !g.settings.includeHidden && isHidden e.name
  byRule || g.exclusion.excludes path

mutual

/-- The paths of the files in an entry, below the start of the walk. -/
def filesIn (g : Guide) (levels : List Level) (way : String) : Entry → List String
  | .file name _ => [way ++ name]
  | .folder name entries =>
    filesAmong g (enter g.settings levels name entries) (way ++ name ++ "/") entries

/-- The paths of the files among entries, below the start of the walk. -/
def filesAmong (g : Guide) (levels : List Level) (way : String) : List Entry → List String
  | [] => []
  | e :: rest =>
    let later := filesAmong g levels way rest
    if passesOver g levels (way ++ e.name) e then later else filesIn g levels way e ++ later

end

/-- The levels of the folders of a trail. -/
def levelsOf (settings : Settings) (t : Trail) : List Level :=
  t.entered.foldr (fun f levels => enter settings levels f.name f.entries)
    [Level.of settings t.top]

/-- The paths of all files of a walk that starts at a path. -/
def allFiles (disk : Disk) (g : Guide) (root : String) : List String :=
  match disk.locate? root with
  | none => []
  | some (.file _) => [root]
  | some (.folder t) =>
    (filesAmong g (levelsOf g.settings t) "" t.entries).map (Path.append root)

/-- The file is to be indexed. -/
def isSource (path : String) : Bool := !isGenerated path && (Language.ofPath? path).isSome

/-- The paths of the files to be indexed, in order. -/
def sources (disk : Disk) (g : Guide) (root : String) : List String :=
  let paths := (allFiles disk g root).map (Text.replaceChar '\\' '/')
  (paths.filter isSource).mergeSort fun a b => decide (a ≤ b)

/-- The texts of files, and the number of those that have none. -/
def readAll (disk : Disk) : List String → List SourceFile × Nat
  | [] => ([], 0)
  | path :: rest =>
    let (files, unreadable) := readAll disk rest
    match (disk.read? path).bind String.fromUTF8? with
    | some content => (⟨path, content⟩ :: files, unreadable)
    | none => (files, unreadable + 1)

/-- Why a folder cannot be indexed. -/
inductive Error where
  | root (path : String)
  | exclusion (cause : Exclusion.Error)
deriving DecidableEq, Repr

/-- The wording of an error. -/
def Error.message : Error → String
  | .root path => "invalid root: " ++ path
  | .exclusion cause => cause.message

/-- Adds the files below the root of an index to it. -/
def addRoot (disk : Disk) (settings : Settings) (x : Index) : Except Error (Index × Summary) :=
  match Exclusion.ofSettings settings with
  | .error cause => .error (.exclusion cause)
  | .ok exclusion =>
    let (files, unreadable) := readAll disk (sources disk ⟨settings, exclusion⟩ x.root)
    let (x, summary) := x.add files
    .ok (x, { summary with skipped := summary.skipped + unreadable })

/-- The index of a folder, whose path starts at another folder unless it is rooted. -/
def index (disk : Disk) (here root : String) (settings : Settings) :
    Except Error (Index × Summary) :=
  if root.isEmpty then .error (.root root)
  else addRoot disk settings (.empty (Text.replaceChar '\\' '/' (Path.absolute here root)))

end Walk
end CodeAtlas

import CodeAtlas.Walk

/-!
# The command line

The command indexes one folder and writes the records and the links to two files.  Its arguments
are read from left to right, and the first one that does not fit, or that asks for help or for
the version, decides.  Everything happens on a disk in memory, so that the whole command is a
function of the disk, the current folder and the arguments.
-/

namespace CodeAtlas
namespace Command

/-- Where the settings are looked for unless the command line says otherwise. -/
def standardSettingsPath : String := "codegraph.json"

/-! ## Arguments -/

/-- The options that take a text. -/
inductive TextOption where
  | settings
  | records
  | links
deriving DecidableEq, Repr

/-- What the arguments ask for. -/
structure Request where
  root : Option String
  settings : Option String
  records : Option String
  links : Option String
  sequential : Bool
deriving DecidableEq, Repr

/-- Why reading the arguments stops early. -/
inductive Stop where
  | help
  | version
  | misuse
deriving DecidableEq, Repr

namespace Request

/-- Nothing is asked for. -/
def empty : Request := ⟨none, none, none, none, false⟩

/-- Sets the folder, once and not to the empty path. -/
def setRoot (r : Request) (path : String) : Except Stop Request :=
  if r.root.isSome || path.isEmpty then .error .misuse else .ok { r with root := some path }

/-- Sets an option, once. -/
def setText (r : Request) (o : TextOption) (value : String) : Except Stop Request :=
  match o with
  | .settings =>
    if r.settings.isSome then .error .misuse else .ok { r with settings := some value }
  | .records =>
    if r.records.isSome then .error .misuse else .ok { r with records := some value }
  | .links =>
    if r.links.isSome then .error .misuse else .ok { r with links := some value }

/-- Sets the mark for a single thread, once. -/
def setSequential (r : Request) : Except Stop Request :=
  if r.sequential then .error .misuse else .ok { r with sequential := true }

end Request

/-- How an argument goes on. -/
inductive Argument where
  | root (path : String)
  | text (option : TextOption) (value : Option String)
  | sequential
  | separator
  | stop (why : Stop)
deriving DecidableEq, Repr

/-- The option with a long name. -/
def textOption? (name : String) : Option TextOption :=
  if name == "config" then some .settings
  else if name == "nodes" then some .records
  else if name == "links" then some .links
  else none

/-- An argument behind two hyphens. -/
def readLong (cs : List Char) : Argument :=
  let name := String.ofList (cs.takeWhile (· != '='))
  let value := match cs.dropWhile (· != '=') with
    | [] => none
    | _ :: rest => some (String.ofList rest)
  match textOption? name, value with
  | some o, value => .text o value
  | none, some _ => .stop .misuse
  | none, none =>
    if name == "sequential" then .sequential
    else if name == "help" then .stop .help
    else if name == "version" then .stop .version
    else .stop .misuse

/-- An argument behind one hyphen; the text of an option may follow at once or behind an equals
sign. -/
def readShort (cs : List Char) : Argument :=
  match cs with
  | ['c'] => .text .settings none
  | 'c' :: '=' :: rest => .text .settings (some (String.ofList rest))
  | 'c' :: rest => .text .settings (some (String.ofList rest))
  | 'h' :: _ => .stop .help
  | 'V' :: _ => .stop .version
  | _ => .stop .misuse

/-- What an argument says; a hyphen alone is a path. -/
def readArgument (argument : String) : Argument :=
  match argument.toList with
  | ['-', '-'] => .separator
  | '-' :: '-' :: rest => readLong rest
  | ['-'] => .root argument
  | '-' :: rest => readShort rest
  | _ => .root argument

/-- The argument is a text that an option may take. -/
def isValue (argument : String) : Bool :=
  match readArgument argument with
  | .root _ => true
  | _ => false

/-- Reads arguments none of which is an option. -/
def readPaths : Request → List String → Except Stop Request
  | r, [] => .ok r
  | r, path :: rest => do readPaths (← r.setRoot path) rest

/-- Reads arguments; `waiting` is an option whose text is the next argument. -/
def readFrom : Request → Option TextOption → List String → Except Stop Request
  | r, none, [] => .ok r
  | _, some _, [] => .error .misuse
  | r, some o, value :: rest =>
    if isValue value then do readFrom (← r.setText o value) none rest else .error .misuse
  | r, none, argument :: rest =>
    match readArgument argument with
    | .root path => do readFrom (← r.setRoot path) none rest
    | .text o none => readFrom r (some o) rest
    | .text o (some value) => do readFrom (← r.setText o value) none rest
    | .sequential => do readFrom (← r.setSequential) none rest
    | .separator => readPaths r rest
    | .stop why => .error why

/-- Reads the arguments of the command: the folder and the other wishes. -/
def read (arguments : List String) : Except Stop (String × Request) := do
  let r ← readFrom .empty none arguments
  match r.root with
  | some root => .ok (root, r)
  | none => .error .misuse

/-! ## Running -/

/-- Why the command fails. -/
inductive Failure where
  | unreadableSettings (path : String)
  | settings (problem : Settings.Problem)
  | walk (cause : Walk.Error)
  | output (cause : WriteError)
deriving DecidableEq, Repr

/-- The wording of a failure. -/
def Failure.message : Failure → String
  | .unreadableSettings path => "failed to read config: " ++ path
  | .settings problem => "invalid configuration: " ++ problem.message
  | .walk cause => cause.message
  | .output cause => "io error: " ++ cause.message

/-- A file to be written. -/
structure Output where
  path : String
  text : String
deriving DecidableEq, Repr

/-- The path of the settings; the empty one stands for the standard path. -/
def Request.settingsPath (r : Request) : String :=
  match r.settings with
  | none | some "" => standardSettingsPath
  | some path => path

/-- The settings in a file of a disk, which may be missing but has to be text. -/
def loadSettings (disk : Disk) (here path : String) : Except Failure Settings :=
  match disk.locate? (Path.append here path) with
  | none => .ok (.load none)
  | some (.folder _) => .error (.unreadableSettings path)
  | some (.file content) =>
    match String.fromUTF8? content with
    | some text => .ok (.load (some text))
    | none => .error (.unreadableSettings path)

/-- Settings with the wishes of a request in place of what they say. -/
def Request.override (r : Request) (s : Settings) : Settings :=
  { s with
    recordsOutput := r.records.getD s.recordsOutput
    linksOutput := r.links.getD s.linksOutput
    parallel := s.parallel && !r.sequential }

/-- The files that hold the results for an index. -/
def outputs (settings : Settings) (x : Index) : List Output :=
  [⟨settings.recordsOutput, x.recordsText⟩, ⟨settings.linksOutput, x.linksText⟩]

/-- The files that a request asks for. -/
def perform (disk : Disk) (here root : String) (r : Request) : Except Failure (List Output) := do
  let settings ← loadSettings disk here r.settingsPath
  let settings := r.override settings
  match settings.problem? with
  | some problem => .error (.settings problem)
  | none =>
    match Walk.index disk here root settings with
    | .error cause => .error (.walk cause)
    | .ok (x, _) => .ok (outputs settings x)

/-- Writes files one after the other; what was written before an error stays. -/
def writeAll (here : String) : Disk → List Output → Disk × Option WriteError
  | disk, [] => (disk, none)
  | disk, o :: rest =>
    match disk.write (Path.append here o.path) o.text.toUTF8 with
    | .ok disk => writeAll here disk rest
    | .error cause => (disk, some cause)

/-- How a run of the command ends. -/
inductive Ending where
  | done
  | stopped (why : Stop)
  | failed (why : Failure)
deriving DecidableEq, Repr

/-- The exit code of an ending. -/
def Ending.code : Ending → Nat
  | .done | .stopped .help | .stopped .version => 0
  | .failed _ => 1
  | .stopped .misuse => 2

/-- Runs the command: the disk that it leaves and how it ends. -/
def run (disk : Disk) (here : String) (arguments : List String) : Disk × Ending :=
  match read arguments with
  | .error why => (disk, .stopped why)
  | .ok (root, r) =>
    match perform disk here root r with
    | .error why => (disk, .failed why)
    | .ok files =>
      match writeAll here disk files with
      | (disk, none) => (disk, .done)
      | (disk, some cause) => (disk, .failed (.output cause))

end Command
end CodeAtlas

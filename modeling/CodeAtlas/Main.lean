import CodeAtlas.Command

/-!
# The program

The outer layer of the command: it copies the folder to be indexed, the ignore files above it and
the settings from the file system to a disk in memory, has the command run there, and writes
the results back.
-/

namespace CodeAtlas
namespace Main

/-- The name and the version that the program shows. -/
def title : String := "codeatlas 0.1.0"

/-- The help text. -/
def help : String := String.intercalate "\n" [
  "Extract entities and their call graph from a source tree",
  "",
  "Usage: codeatlas [OPTIONS] <ROOT>",
  "",
  "Arguments:",
  "  <ROOT>  Root folder to index",
  "",
  "Options:",
  "  -c, --config <CONFIG>  JSON configuration file [default: codegraph.json]",
  "      --nodes <NODES>    Output path for nodes (overrides the config)",
  "      --links <LINKS>    Output path for links (overrides the config)",
  "      --sequential       Process files on a single thread",
  "  -h, --help             Print help",
  "  -V, --version          Print version"]

/-- The bytes of a file have to be known. -/
def isNeeded (name : String) : Bool :=
  [".gitignore", ".ignore", "exclude"].contains name || Walk.isSource name

/-- Copies the entries of a folder; entries that cannot be read are left out. -/
partial def copyFolder (path : String) : IO (List Entry) := do
  let folder ← IO.FS.realPath path
  let mut entries : List Entry := []
  for e in ← folder.readDir do
    try
      if ← e.path.isDir then
        entries := .folder e.fileName (← copyFolder e.path.toString) :: entries
      else if isNeeded e.fileName then
        entries := .file e.fileName (← IO.FS.readBinFile e.path) :: entries
      else
        entries := .file e.fileName .empty :: entries
    catch _ => pure ()
  return entries

/-- Copies one file to the disk, if it is there. -/
def copyFile (disk : Disk) (path : String) : IO Disk := do
  try
    return disk.store path (← IO.FS.readBinFile path)
  catch _ => return disk

/-- The folders above a path, without the path itself. -/
def foldersAbove (path : String) : List String :=
  let segments := Disk.segments (Path.normalize path)
  (List.range segments.length).map fun n => "/" ++ Text.join "/" (segments.take n)

/-- Copies what a run on a folder can ask for. -/
def copyAll (path : String) : IO Disk := do
  let mut disk := Disk.empty
  for folder in foldersAbove path do
    for name in [".ignore", ".gitignore", ".git/info/exclude"] do
      disk ← copyFile disk (Path.append folder name)
  try
    let entries ← copyFolder path
    let names := Disk.segments (Path.normalize path)
    return ⟨entriesBelow names entries disk.entries⟩
  catch _ => copyFile disk path
where
  /-- Entries with others in a folder below them. -/
  entriesBelow : List String → List Entry → List Entry → List Entry
    | [], entries, _ => entries
    | name :: rest, entries, present =>
      let inside := (Entry.folder? present name).getD []
      Entry.put present (.folder name (entriesBelow rest entries inside))

/-- Writes the files of a run. -/
def writeOutputs (outputs : List Command.Output) : IO UInt32 := do
  for o in outputs do
    IO.FS.writeFile o.path o.text
  return 0

/-- Reports a failure. -/
def fail (message : String) : IO UInt32 := do
  IO.eprintln ("Error: " ++ message)
  return 1

/-- Runs the program. -/
def run (arguments : List String) : IO UInt32 := do
  match Command.read arguments with
  | .error .help =>
    IO.println help
    return 0
  | .error .version =>
    IO.println title
    return 0
  | .error .misuse =>
    IO.eprintln help
    return 2
  | .ok (root, request) =>
    let here := (← IO.currentDir).toString
    let settings := Path.append here request.settingsPath
    let disk ← copyFile (← copyAll (Path.absolute here root)) settings
    match Command.perform disk here root request with
    | .error why => fail why.message
    | .ok outputs =>
      try writeOutputs outputs
      catch e => fail (toString e)

end Main
end CodeAtlas

/-- The entry point. -/
def main (arguments : List String) : IO UInt32 := CodeAtlas.Main.run arguments

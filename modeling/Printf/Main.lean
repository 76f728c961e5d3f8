import Printf.Command.Line
import Std.Time.DateTime.Timestamp

/-! The program behind the commands. It copies what a command may look at from the file system, runs
the command on the copy, and writes back what has changed. -/
namespace Printf.Program

def systemPath (l : Location) :=
  System.mkFilePath (match l with
    | [] => ["."]
    | "/" :: rest => ["/" ++ "/".intercalate rest]
    | l => l)

/-- What stands at a location. The content of anything that is no regular file is left alone. -/
def observeNode (l : Location) : IO (Option Node) := do
  let path := systemPath l
  match ← path.metadata.toBaseIO with
  | .error _ => return none
  | .ok found =>
    match found.type with
    | .dir => return some .directory
    | .file => return some (.file (← IO.FS.readBinFile path).toList)
    | _ => return some (.file [])

def observePath (files : Files) (path : String) : IO Files := do
  let mut files := files
  let mut location := Files.start path
  for component in Path.components path do
    location := Files.step location component
    unless Files.isFixed location do
      if let some node ← observeNode location then files := files.set location node
  return files

def observeCases (files : Files) (directory : String) : IO Files := do
  let mut files ← observePath files directory
  if let .ok (location, .directory) := files.find directory then
    for entry in ← (systemPath location).readDir do
      if Path.extension? entry.fileName = some "json" then
        files ← observePath files (Path.join directory entry.fileName)
  return files

def observe : Command → IO Files
  | .verify fixture report _ log => do
    (report.toList ++ log.toList).foldlM observePath (← observeCases {} fixture)
  | _ => return {}

def store (before after : Files) : IO Unit := do
  for (location, node) in after.nodes do
    if before.node? location != some node then
      match node with
      | .directory => IO.FS.createDirAll (systemPath location)
      | .file content => IO.FS.writeBinFile (systemPath location) ⟨content.toArray⟩

def now : IO Instant := do
  let nanos := (← Std.Time.Timestamp.now).toNanosecondsSinceUnixEpoch.val
  return .ofClock (nanos / 1000000000) (nanos % 1000000000).toNat

/-- The number of this process, as the process table shows it; zero where there is none. -/
def processId : BaseIO Nat := do
  match ← (IO.FS.readFile "/proc/self/stat").toBaseIO with
  | .ok entry => return ((entry.takeWhile Char.isDigit).toNat?).getD 0
  | .error _ => return 0

/-- Runs a command. A first run shows how long the cases take. -/
def perform (command : Command) : IO UInt32 := do
  let files ← observe command
  let start ← IO.monoMsNow
  let around : Surroundings :=
    { features := ⟨true, true⟩, now := ← now, processId := ← processId, elapsedMs := 0 }
  let first := command.run around files
  IO.eprint first.stderr
  let around := { around with elapsedMs := (← IO.monoMsNow) - start }
  let outcome := command.run around files
  store files outcome.files
  IO.print outcome.stdout
  return outcome.code.toUInt32

def usage : String :=
  "Usage: printf verify --fixture <FIXTURE> [--report <REPORT>] [--json] [--log <LOG>]\n" ++
  "       printf render [--capacity <CAPACITY>] <FORMAT> [ARGS]...\n" ++
  "       printf parse <DIRECTIVE>\n"

end Printf.Program

def main (args : List String) : IO UInt32 := do
  match Printf.Command.ofWords? args with
  | some command => Printf.Program.perform command
  | none =>
    IO.eprint Printf.Program.usage
    return 2

import Relay.Cli.Play
import Relay.Cli.Tool
import Relay.Shell.Machine

/-!
# The command line

One executable holds both programs; under the name `jatti-play` it is the one for sessions.  It
reads the files around the working directory and those in the user's home into a disk, lets the
program work on the machine of `Relay.Shell.Machine`, which is not on a network, and puts what the
program wrote where it belongs.  All that is decided is decided by the pure programs.
-/

namespace Relay.CommandLine

open Files (Disk Entry Location)

/-- The variables that reach the programs. -/
def variableNames : List String :=
  ["HOME", "PATH", "JATTI_PYTHON_PATH", "JATTI_TOOL_PATH", "JATTI_WORKSPACE", "JATTI_ENDPOINT",
    "JATTI_TIMEOUT_SECS", "JATTI_MAX_OUTPUT_BYTES", "JATTI_REQUEST_TIMEOUT_SECS",
    "JATTI_MAX_RESPONSE_BYTES", "JATTI_API_KEY"]

/-- The variables that are set. -/
def readVariables : IO Variables := do
  variableNames.filterMapM fun name => do return (← IO.getEnv name).map fun value => (name, value)

/-- The location of an absolute path. -/
def locationOf (path : String) : Location := Files.steps (Utf8.encode path)

/-- The path of a location. -/
def pathOf (l : Location) : String := (Disk.pathOf l).display

/-- The directories from the root to a location. -/
def directoriesTo (l : Location) : List (Location × Entry) :=
  (List.range l.length).map fun n => (l.take (n + 1), .directory)

/-- A file, if it can be read. -/
def readFile (path : String) : IO (List (Location × Entry)) := do
  try
    let content ← IO.FS.readBinFile path
    return [(locationOf path, .file content.toList true)]
  catch _ => return []

/-- What is at a directory entry and below it, down to a depth. -/
def readEntry : Nat → IO.FS.DirEntry → IO (List (Location × Entry))
  | 0, _ => return []
  | depth + 1, e => do
    let path := e.path.toString
    if ← e.path.isDir then
      let below ← (← e.path.readDir).toList.mapM (readEntry depth)
      return (locationOf path, .directory) :: below.flatten
    else readFile path

/-- How far down the working directory is read. -/
def depth : Nat := 6

/-- The disk that the programs see. -/
def readDisk (vars : Variables) : IO Disk := do
  let here ← IO.currentDir
  let cwd := locationOf here.toString
  let tree ← (← here.readDir).toList.mapM (readEntry depth)
  let above ← (Settings.upwards cwd).tail.mapM fun l => readFile (pathOf (l ++ [Utf8.encode ".env"]))
  let storage := Cli.storagePath vars
  let home := [storage, Cli.historyPath vars].filter (·.isAbsolute)
  let kept ← home.mapM fun p => readFile p.display
  let parents := home.flatMap fun p => directoriesTo (Files.steps p.bytes).dropLast
  let entries := Shell.machineEntries ++ directoriesTo cwd ++ tree.flatten ++ above.flatten ++
    kept.flatten ++ parents
  return ⟨⟨entries⟩, cwd⟩

/-- Puts the files that changed where they belong. -/
def writeChanges (before after : Disk) : IO Unit := do
  for (l, e) in after.tree.entries do
    if before.tree.get? l != some e then
      match e with
      | .file content _ =>
        IO.FS.createDirAll (pathOf l.dropLast)
        IO.FS.writeBinFile (pathOf l) ⟨content.toArray⟩
      | .directory => IO.FS.createDirAll (pathOf l)
      | _ => pure ()

/-- Writes octets to the streams in their order. -/
def write (written : List (Stream × Bytes)) : IO Unit := do
  for (stream, octets) in written do
    let target ← match stream with
      | .out => IO.getStdout
      | .err => IO.getStderr
    target.write ⟨octets.toArray⟩
    target.flush

/-- Feeds a session with what is typed until it has said goodbye. -/
partial def hold (p : Cli.Play) : IO Cli.Play := do
  if p.gone then return p
  let octets ← (← IO.getStdin).read 65536
  let (p, ls) := if octets.isEmpty then p.close else p.type octets.toList
  let (p, more) := p.settle .unreachable
  write (Cli.encoded (ls ++ more))
  hold p

/-- Ends with what a program did. -/
def finish (before : Disk) (f : Cli.Finish) : IO UInt32 := do
  write f.written
  writeChanges before f.disk
  return UInt32.ofInt f.code

/-- The program for sessions. -/
def play (world : World) (args : List String) : IO UInt32 := do
  match Cli.Play.start .unreachable world args with
  | .inl f => finish world.disk f
  | .inr (p, first) =>
    write (Cli.encoded first)
    let p ← hold p
    finish world.disk (Cli.finished p.disk [] 0)

end Relay.CommandLine

/-- Runs the program of this name. -/
def main (args : List String) : IO UInt32 := do
  let vars ← Relay.CommandLine.readVariables
  let disk ← Relay.CommandLine.readDisk vars
  let name := (← IO.appPath).fileName.getD ""
  if name = "jatti-play" then Relay.CommandLine.play ⟨disk, vars⟩ args
  else
    Relay.CommandLine.finish disk (Relay.Cli.runTool Relay.Shell.launch ⟨disk, vars⟩ args)

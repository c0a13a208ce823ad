import Relay.Shell.Execute
import Relay.Tool.Invoke

/-!
# A machine

A machine with a shell and utilities.  Starting a program there can fail before it runs: its
directory or the program itself is missing, may not be executed, or is in no format that the
machine knows.  A program with a slash in its name is looked for from the directory it starts in,
any other along the search path.
-/

namespace Relay.Shell

open Files (Disk Failure Location Entry Tree)

/-- The octets of a name. -/
def nameBytes (s : String) : Bytes := Utf8.encode s

/-- The programs of the machine, with the name that tells what each of them does. -/
def programs : List (String × String) :=
  ("sh", "sh") :: ("dash", "sh") :: utilityNames.map fun n => (n, n)

/-- The files that the machine comes with. -/
def machineEntries : List (Location × Entry) :=
  let usr := nameBytes "usr"
  let bin := nameBytes "bin"
  let dev := nameBytes "dev"
  [([usr], .directory), ([usr, bin], .directory), ([bin], .link (nameBytes "usr/bin")),
    ([dev], .directory), ([dev, nameBytes "null"], .device false),
    ([dev, nameBytes "zero"], .device true), ([nameBytes "tmp"], .directory)] ++
    programs.map fun (name, what) => ([usr, bin, nameBytes name], .program (nameBytes what))

/-- The search path of someone who set none. -/
def defaultSearchPath : String := "/usr/local/sbin:/usr/local/bin:/usr/sbin:/usr/bin:/sbin:/bin"

/-- How many interpreters may stand behind each other. -/
def interpreterLimit : Nat := 4

/-- Checks that what an executable file asks for can be executed too. -/
def runnable (d : Disk) : Nat → Executable → Except Failure Unit
  | _, .program _ => .ok ()
  | _, .plain _ => .error (.system .execFormat)
  | 0, .scripted _ _ => .error (.system .tooManyLinks)
  | n + 1, .scripted interpreter _ => (executable d interpreter).bind (runnable d n)

/-- The session of a new process in a directory. -/
def newSession (disk : Disk) (vars : Variables) : Session :=
  let given := vars.map fun (n, v) => (ofBytes (nameBytes n), ofBytes (nameBytes v))
  let path := "PATH".toList
  let all :=
    if (given.lookup path).isSome then given else (path, defaultSearchPath.toList) :: given
  { disk
    directory := disk.cwdPath
    vars := all
    exported := all.map (·.1)
    parameters := []
    name := []
    functions := []
    status := 0
    line := 1
    targets := [(1, .stream .out), (2, .stream .err)]
    input := []
    written := []
    caught := []
    traps := []
    strict := false
    careful := false
    substituted := false
    locals := [] }

/-- How long a process may run, in steps. -/
def patience : Nat := 1000000

/-- The disk seen from the directory of a command. -/
def inDirectory (d : Disk) (directory : Option Path) : Except Failure Disk :=
  match directory with
  | none => .ok d
  | some p =>
    match d.stat p with
    | .ok (l, .directory) => .ok { d with cwd := l }
    | .ok _ => .error (.system .notDirectory)
    | .error e => .error e

/-- Starts a command on the machine and lets it run to its end. -/
def launch : Launcher := fun world command => do
  let program := ofBytes (Utf8.encode command.program)
  let arguments := command.arguments.map ofBytes
  let zero := Char.ofNat 0
  if program.contains zero || arguments.any (·.contains zero) ||
      (command.directory.map (·.bytes.contains 0)).getD false then
    throw .zeroInArgument
  let disk ← inDirectory world.disk command.directory
  let session := newSession disk world.vars
  let path ← findProgram disk ((session.valueOf? "PATH".toList).getD []) program
  let e ← executable disk path
  runnable disk interpreterLimit e
  let (r, after) := ((runExecutable patience program path e arguments).run).run session
  let code : Option Int :=
    match r with
    | .error (.exit n) => some n
    | .error .killed => none
    | _ => some after.status
  return (⟨after.written.reverse, code⟩, { after.disk with cwd := world.disk.cwd })

end Relay.Shell

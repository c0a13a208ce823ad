import Relay.Files.Disk
import Relay.Request
import Relay.Tool.Errand
import Relay.Variables

/-!
# The local executor

A request on a file becomes a report: the tool is located, started and watched.  That is an errand,
`invocation`, which says nothing of who answers it.  On a machine it is answered from a disk and a
`Launcher`, which says what a process writes, how it ends and what it leaves on the disk.  Whatever
goes wrong, there is a report.
-/

namespace Relay

open Files (Disk Failure)

/-- What a process did: what it wrote, in order, and its exit code unless a signal killed it. -/
structure ProcessRun where
  written : List (Stream × Bytes)
  code : Option Int
  deriving DecidableEq, Repr

/-- The signals of a process that nobody disturbs. -/
def ProcessRun.signals (p : ProcessRun) : List Signal :=
  p.written.map (fun (s, octets) => .read s octets) ++ [.closed .out, .closed .err, .ended p.code]

/-- What a process wrote to one stream. -/
def ProcessRun.text (p : ProcessRun) (s : Stream) : Bytes :=
  (p.written.filter (·.1 == s)).flatMap (·.2)

/-- What a process sees of its surroundings. -/
structure World where
  disk : Disk
  vars : Variables
  deriving Repr

/-- A machine that starts programs. -/
abbrev Launcher := World → Command → Except Failure (ProcessRun × Disk)

/-- The limits on a run of the tool. -/
structure Limits where
  timeoutSecs : UInt64
  maxOutputBytes : UInt64
  deriving DecidableEq, Repr

theorem ProcessRun.signals_orderly (p : ProcessRun) :
    p.signals.Pairwise fun x y => x.bars y = false := by
  have hreads : ∀ x ∈ p.written.map (fun (s, octets) => Signal.read s octets), ∀ y,
      x.bars y = false := by
    intro x hx y
    obtain ⟨w, _, rfl⟩ := List.mem_map.mp hx
    rfl
  refine List.pairwise_append.mpr ⟨?_, ?_, ?_⟩
  · exact List.pairwise_of_forall_mem_list fun x hx y _ => hreads x hx y
  · simp [Signal.bars, Signal.endsStream?, Signal.endsProcess, Signal.stream?]
  · exact fun x hx y _ => hreads x hx y

/-- What is seen of a process: a limit of no time at all is over before anything is read. -/
def Limits.observe (l : Limits) (p : ProcessRun) : Observation :=
  if l.timeoutSecs = 0 then ⟨[.timeout], List.pairwise_singleton _ _⟩
  else ⟨p.signals, p.signals_orderly⟩

/-- Why the tool cannot be run where its output is not captured. -/
inductive LaunchError where
  | locate (error : LocateError)
  | spawn (interpreter : String) (failure : Failure)
  deriving DecidableEq, Repr

/-- The text shown for the error. -/
def LaunchError.message : LaunchError → String
  | locate error => error.message
  | spawn interpreter failure =>
    "Failed to launch '" ++ interpreter ++ "': " ++ failure.message

/-- The report on an interpreter that cannot be started; a missing one can be set. -/
def spawnReport (interpreter : String) (failure : Failure) : Report :=
  if failure = .system .noEntry then
    .unresolved ("Could not launch '" ++ interpreter ++ "': " ++ failure.message ++
      ". Set the interpreter path (jatti.pythonPath / JATTI_PYTHON_PATH / --python).")
  else .transport (LaunchError.spawn interpreter failure).message

/-- What the local executor says to code that is in no file. -/
def saveFirst : String :=
  "The local tool runs files on disk; save the code to a .jatti file first."

/-- The report on what was seen of a process.  The time limit comes at last, whatever was seen. -/
def Limits.judge (l : Limits) (seen : Observation) : Report :=
  ((Watch.run l.maxOutputBytes.toNat (seen.signals ++ [.timeout])).report
    (.ofSeconds l.timeoutSecs.toNat)).getD .blank

/-- Starts a tool for an operation on a file, and reports on it. -/
def LocalTool.started (tool : LocalTool) (limits : Limits) (cwd : Path) (operation : Operation)
    (file : SourceFile) : Errand Report :=
  .spawn (tool.command cwd operation file) fun
    | .error failure => .done (spawnReport tool.interpreter failure)
    | .ok seen => .done (limits.judge seen)

/-- The local executor's work on a request, from the working directory `cwd`. -/
def invocation (limits : Limits) (settings : ToolSettings) (cwd : Path) (request : Request) :
    Errand Report :=
  match request.origin with
  | .typed _ => .done (.unresolved saveFirst)
  | .file file =>
    Errand.search (fun
      | none => .done (.unresolved LocateError.notFound.message)
      | some c =>
        LocalTool.started ⟨settings.interpreter, c.path⟩ limits cwd request.operation file)
      (candidates settings file)

/-- A machine as surroundings: files are on its disk, and its launcher starts programs. -/
def surroundings (launch : Launcher) (limits : Limits) (vars : Variables) : Surroundings Disk where
  isFile disk path := disk.isFile path
  spawn disk command :=
    match launch ⟨disk, vars⟩ command with
    | .error failure => .error failure
    | .ok (p, disk) => .ok (limits.observe p, disk)

/-- The local executor's report on a request, and the disk afterwards. -/
def invokeLocal (launch : Launcher) (limits : Limits) (settings : ToolSettings) (world : World)
    (request : Request) : Report × Disk :=
  let trip := (invocation limits settings world.disk.cwdPath request).run
    (surroundings launch limits world.vars) world.disk
  (trip.result, trip.state)

/-- The command that runs a file, as a line to type. -/
def localCommandLine (settings : ToolSettings) (disk : Disk) (file : SourceFile) :
    Except LaunchError String :=
  match locate disk.isFile settings file with
  | .error e => .error (.locate e)
  | .ok tool => .ok (tool.commandLine disk.cwdPath file)

/-- Runs a file with nothing captured: what the process did, and the disk afterwards. -/
def runInTerminal (launch : Launcher) (settings : ToolSettings) (world : World)
    (file : SourceFile) : Except LaunchError (ProcessRun × Disk) :=
  match locate world.disk.isFile settings file with
  | .error e => .error (.locate e)
  | .ok tool =>
    match launch world (tool.command world.disk.cwdPath .run file) with
    | .error failure => .error (.spawn tool.interpreter failure)
    | .ok r => .ok r

end Relay

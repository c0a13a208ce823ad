import Relay.Cli.Finish
import Relay.Tool.Invoke

/-!
# The program for files

`jatti run|build|format|terminal FILE` does an operation on a file with the local tool.  Options
stand before or after the operation; one after it counts for one before it.  A file that is no
source file ends the program before anything is looked for.  Otherwise the code tells whether the
operation succeeded, or is the tool's own in a terminal.
-/

namespace Relay.Cli

open Files (Disk)

/-- What the program is asked to do. -/
inductive ToolTask where
  | operate (operation : Operation)
  /-- Run with nothing captured, or only print the command. -/
  | terminal (printOnly : Bool)
  deriving DecidableEq, Repr

/-- What the program is asked to do, on which file and with which settings. -/
structure ToolArguments where
  config : Option Path
  python : Option String
  toolPath : Option String
  workspace : List Path
  timeout : Option UInt64
  task : ToolTask
  file : Path
  deriving DecidableEq, Repr

/-- The options behind the settings document that stand anywhere. -/
def sharedOptions : List OptionSpec :=
  [⟨"python", none, .text, false, "Interpreter used to launch cli.py"⟩,
    ⟨"tool-path", none, .text, false, "cli.py, or the folder that contains it"⟩,
    ⟨"workspace", none, .path, true,
      "Workspace folder searched for cli.py (repeatable, in order)"⟩,
    ⟨"timeout", none, .word, false, "Wall-clock limit in seconds"⟩, verboseOption]

/-- The options in front of the operation. -/
def frontOptions : List OptionSpec :=
  configOption :: sharedOptions ++
    [helpOption none, ⟨"version", some 'V', .stop .version, false, "Print version"⟩]

/-- The options behind an operation. -/
def operationOptions (word : String) : List OptionSpec :=
  configOption :: sharedOptions ++ [helpOption (some word)]

/-- The options behind `terminal`. -/
def terminalOptions : List OptionSpec :=
  configOption :: ⟨"print", none, .nothing, false, "Only print the command line"⟩ ::
    sharedOptions ++ [helpOption (some "terminal")]

/-- The commands of the program, and what each is for. -/
def toolCommands : List (String × String) :=
  [("run", "Run a .jatti file"), ("build", "Compile a .jatti file to a sibling .py file"),
    ("format", "Format a .jatti file"),
    ("terminal", "Run with the terminal attached, no capture"),
    ("help", "Print this message or the help of the given subcommand(s)")]

/-- The help page of the program or of one of its commands. -/
def toolHelp : Option String → HelpPage
  | none =>
    { about := "Run, build and format Jatti files through the local cli.py"
      usage := "jatti [OPTIONS] <COMMAND>"
      commands := toolCommands
      operands := []
      options := frontOptions }
  | some word =>
    let about := (toolCommands.lookup word).getD ""
    if word = "help" then
      { about
        usage := "jatti help [COMMAND]..."
        commands := []
        operands := [("[COMMAND]...", "Print help for the subcommand(s)")]
        options := [] }
    else
      { about
        usage := "jatti " ++ word ++ " [OPTIONS] <FILE>"
        commands := []
        operands := [("<FILE>", "")]
        options := if word = "terminal" then terminalOptions else operationOptions word }

/-- The texts of the program for files. -/
def toolTexts : SelfDescription where
  help := toolHelp
  version := "jatti 0.1.0\n"

/-- The arguments of the program, from the options before and after the operation. -/
def toolArguments (front back : Arguments) (task : ToolTask) : Except Stop ToolArguments :=
  let value? (name : String) : Option String := (back.value? name).or (front.value? name)
  let folders := if back.has "workspace" then back.values "workspace" else front.values "workspace"
  match back.operands with
  | [file] =>
    if file = "" then .error .usage
    else .ok {
      config := (value? "config").map Path.ofString
      python := value? "python"
      toolPath := value? "tool-path"
      workspace := folders.map Path.ofString
      timeout := (value? "timeout").bind Numeral.word?
      task
      file := Path.ofString file }
  | _ => .error .usage

/-- The command whose help page `help` is asked for; none is named for the whole program. -/
def helpTopic : List String → Except Stop (Option String)
  | [] => .ok none
  | [word] => if (toolCommands.lookup word).isSome then .ok (some word) else .error .usage
  | _ => .error .usage

/-- Reads the arguments of the program. -/
def ToolArguments.parse (args : List String) : Except Stop ToolArguments := do
  match ← readFront frontOptions args with
  | (_, []) => throw .usage
  | (front, word :: rest) =>
    match Operation.ofWord? word with
    | some operation =>
      let back ← readAll (operationOptions word) 1 rest
      toolArguments front back (.operate operation)
    | none =>
      if word = "terminal" then
        let back ← readAll terminalOptions 1 rest
        toolArguments front back (.terminal (back.has "print"))
      else if word = "help" then
        throw (.help (← helpTopic rest))
      else throw .usage

/-- The settings with what the arguments say. -/
def ToolArguments.apply (a : ToolArguments) (cwd : Path) (s : Settings) : Settings :=
  let tool : ToolSettings :=
    { interpreterPath := a.python.getD s.tool.interpreterPath
      toolPath := a.toolPath.getD s.tool.toolPath
      workspaceFolders := if a.workspace = [] then s.tool.workspaceFolders else a.workspace }
  let s : Settings := { s with tool, timeoutSecs := a.timeout.getD s.timeoutSecs }
  s.withDefaultWorkspace cwd

/-- The limits on a run of the tool. -/
def limitsOf (s : Settings) : Limits := ⟨s.timeoutSecs, s.maxOutputBytes⟩

/-- An error in front of the user. -/
def crossed (message : String) : Line := .err ("❌ " ++ message ++ "\n")

/-- Runs a file in the terminal, or prints the command that would. -/
def runTerminal (launch : Launcher) (settings : Settings) (world : World) (printOnly : Bool)
    (file : SourceFile) : Finish :=
  if printOnly then
    match localCommandLine settings.tool world.disk file with
    | .ok line => finished world.disk [.out (line ++ "\n")] 0
    | .error e => finished world.disk [crossed e.message] 1
  else
    match runInTerminal launch settings.tool world file with
    | .ok (process, disk) => ⟨process.written, process.code.getD 1, disk, false⟩
    | .error e => finished world.disk [crossed e.message] 1

/-- What a program shows, and the code it ends with. -/
structure Showing where
  lines : List Line
  code : Int
  deriving DecidableEq, Repr

/-- What is shown for an operation on a file and the executor's report on it. -/
def reported (operation : Operation) (file : SourceFile) (report : Report) : Showing :=
  let controller := Controller.new (Credential.load memoryStore [])
  let (_, progress, effects) :=
    controller.advance (.planned .button operation file) (some report)
  let code : Int := match progress with
    | .done (some outcome) => if outcome.isSuccess then 0 else 1
    | _ => 1
  ⟨ConsoleStyle.editor.shownAll (Effect.events effects), code⟩

/-- What is shown for a path that names no source file. -/
def gated (e : LocateError) : Showing := ⟨[crossed e.message], 2⟩

/-- Does an operation on the file at a path, shown on a console. -/
def operate (settings : Settings) (cwd : Path) (operation : Operation) (path : Path) :
    Errand Showing :=
  match SourceFile.ofPath path with
  | .error e => .done (gated e)
  | .ok file =>
    (invocation (limitsOf settings) settings.tool cwd (.onFile file operation)).map
      (reported operation file)

/-- A program that ended with what it shows. -/
def Showing.finish (shown : Showing) (disk : Disk) : Finish := finished disk shown.lines shown.code

/-- The program for files. -/
def runTool (launch : Launcher) (world : World) (args : List String) : Finish :=
  match ToolArguments.parse args with
  | .error s => stopped world.disk toolTexts s
  | .ok a =>
    match Settings.load world.disk world.vars a.config with
    | .error e => failed world.disk (settingsReport e)
    | .ok (settings, vars) =>
      let settings := a.apply world.disk.cwdPath settings
      match a.task with
      | .operate operation =>
        let trip := (operate settings world.disk.cwdPath operation a.file).run
          (surroundings launch (limitsOf settings) vars) world.disk
        trip.result.finish trip.state
      | .terminal printOnly =>
        match SourceFile.ofPath a.file with
        | .error e => (gated e).finish world.disk
        | .ok file => runTerminal launch settings { world with vars } printOnly file

end Relay.Cli

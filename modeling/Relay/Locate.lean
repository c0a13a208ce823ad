import Relay.Source
import Relay.Text.Blank
import Relay.Text.Lowercase

/-!
# Locating an executor

The local tool is a script, `cli.py`, that an interpreter runs.  It is looked for in three places:
where the settings say, beside the source file, and at the root of each workspace folder; the first
candidate that is a file is taken.  Which paths are files is a parameter, so the search itself
looks at nothing.  The playground is reached at a fixed route below its address.
-/

namespace Relay

/-- The interpreter of a blank setting. -/
def defaultInterpreter : String := "python"

/-- The name of the tool's script. -/
def entryPoint : String := "cli.py"

/-- The end, in any case, of a setting that names the script itself. -/
def scriptSuffix : String := ".py"

/-- The route below the playground's address that runs programs. -/
def runRoute : String := "/api/run"

/-- What the search for the local tool depends on. -/
structure ToolSettings where
  /-- The interpreter, as set. -/
  interpreterPath : String
  /-- The tool's script or the folder that holds it, as set. -/
  toolPath : String
  /-- The workspace folders, in the order they are searched. -/
  workspaceFolders : List Path
  deriving DecidableEq, Repr, Inhabited

namespace ToolSettings

/-- The settings of someone who set nothing. -/
def default : ToolSettings := ⟨defaultInterpreter, "", []⟩

/-- The interpreter to use: the setting trimmed, or the default when nothing is left. -/
def interpreter (s : ToolSettings) : String :=
  if Text.trim s.interpreterPath = "" then defaultInterpreter else Text.trim s.interpreterPath

end ToolSettings

/-- A setting ends in the script suffix, in any case. -/
def namesScript (setting : String) : Bool :=
  scriptSuffix.toList.isSuffixOf (Text.lowerChars setting.toList)

/-- The path that the tool setting asks for: the setting trimmed if it names a script, and else
the script in the folder that it names; nothing when it is blank. -/
def configured? (toolPath : String) : Option Path :=
  let trimmed := Text.trim toolPath
  if trimmed = "" then none
  else if namesScript trimmed then some (.ofString trimmed)
  else some ((Path.ofString trimmed).join (.ofString entryPoint))

/-- Why a path is a candidate. -/
inductive CandidateOrigin where
  | configured
  | besideFile
  | workspaceRoot
  deriving DecidableEq, Repr, Inhabited

/-- The order of the search. -/
def CandidateOrigin.searchOrder : List CandidateOrigin := [configured, besideFile, workspaceRoot]

/-- A path where the tool may be. -/
structure Candidate where
  origin : CandidateOrigin
  path : Path
  deriving DecidableEq, Repr

/-- The paths of one origin, in order. -/
def CandidateOrigin.paths (s : ToolSettings) (file : SourceFile) : CandidateOrigin → List Path
  | configured => (configured? s.toolPath).toList
  | besideFile => [file.directory.join (.ofString entryPoint)]
  | workspaceRoot => s.workspaceFolders.map (·.join (.ofString entryPoint))

/-- All candidates, in the order they are tried. -/
def candidates (s : ToolSettings) (file : SourceFile) : List Candidate :=
  CandidateOrigin.searchOrder.flatMap fun origin =>
    (origin.paths s file).map fun path => ⟨origin, path⟩

/-- Why there is nothing to run. -/
inductive LocateError where
  /-- No candidate is a file. -/
  | notFound
  /-- The path does not name a source file. -/
  | notSource (path : Path)
  deriving DecidableEq, Repr

/-- The text shown for the error. -/
def LocateError.message : LocateError → String
  | notFound =>
    "Could not find cli.py. Set the tool path (jatti.cliPath / JATTI_TOOL_PATH / --tool-path) " ++
      "to your Jatti install folder or cli.py file."
  | notSource path => "This is not a Jatti file (.jatti): " ++ path.display

/-- The source file of a path. -/
def SourceFile.ofPath (p : Path) : Except LocateError SourceFile :=
  match SourceFile.ofPath? p with
  | some f => .ok f
  | none => .error (.notSource p)

/-- A tool to run and what runs it. -/
structure LocalTool where
  interpreter : String
  script : Path
  deriving DecidableEq, Repr

/-- The tool for a source file: the first candidate that is a file. -/
def locate (isFile : Path → Bool) (s : ToolSettings) (file : SourceFile) :
    Except LocateError LocalTool :=
  match (candidates s file).find? (fun c => isFile c.path) with
  | some c => .ok ⟨s.interpreter, c.path⟩
  | none => .error .notFound

/-- The address that runs programs: the playground's without slashes at its end, and the route. -/
def runAddress (endpoint : String) : String := Text.dropEndChar '/' endpoint ++ runRoute

end Relay

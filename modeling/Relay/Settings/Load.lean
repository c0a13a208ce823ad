import Relay.Files.Disk
import Relay.Settings.EnvFile
import Relay.Settings.Layers

/-!
# Loading settings

Settings come in layers, the later over the earlier: the defaults, a document, the environment.
Before them the file `.env`, in the working directory or the nearest one above it, adds variables
to the environment.  The document is the one that is asked for, or `jatti.toml` if there is one.
-/

namespace Relay

open Files (Disk Failure)

/-- The name of the settings document. -/
def settingsFile : String := "jatti.toml"

/-- The name of the file of variables. -/
def envFileName : String := ".env"

/-- Why settings cannot be loaded. -/
inductive SettingsError where
  | missing (path : Path)
  | io (failure : Failure)
  | badDocument
  deriving DecidableEq, Repr

/-- The text shown for the error. -/
def SettingsError.message : SettingsError → String
  | missing path => "Settings file not found: " ++ path.display
  | io failure => "IO error: " ++ failure.message
  | badDocument => "TOML parse error"

namespace Settings

/-- The directory and those above it, nearest first. -/
def upwards (l : Files.Location) : List Files.Location :=
  (List.range (l.length + 1)).map fun n => l.take (l.length - n)

/-- The nearest file of variables; an error on the way ends the search. -/
def findEnvFile (d : Disk) : List Files.Location → Option Path
  | [] => none
  | l :: rest =>
    let path := (Disk.pathOf l).join (.ofString envFileName)
    match d.stat path with
    | .ok (_, .file _ _) => some path
    | .ok _ => findEnvFile d rest
    | .error e => if e = .system .noEntry then findEnvFile d rest else none

/-- The variables with those of the nearest file of variables. -/
def withEnvFile (d : Disk) (vars : Variables) : Variables :=
  match findEnvFile d (upwards d.cwd) with
  | some path =>
    match d.read path with
    | .ok content => EnvFile.load vars content
    | .error _ => vars
  | none => vars

/-- The settings with what the document at a path sets. -/
def applyFile (s : Settings) (d : Disk) (path : Path) : Except SettingsError Settings :=
  match d.readText path with
  | .error e => .error (.io e)
  | .ok text =>
    match s.applyText? text with
    | some s => .ok s
    | none => .error .badDocument

/-- The defaults with what a document sets: the one at `path`, which has to be there, or the one
in the working directory, which may be missing. -/
def documentLayer (d : Disk) (path : Option Path) : Except SettingsError Settings :=
  match path with
  | some path =>
    if d.pathExists path then Settings.default.applyFile d path else .error (.missing path)
  | none =>
    if d.pathExists (.ofString settingsFile) then
      Settings.default.applyFile d (.ofString settingsFile)
    else .ok .default

/-- The settings of a run, with the variables that it goes on with. -/
def load (d : Disk) (vars : Variables) (path : Option Path) :
    Except SettingsError (Settings × Variables) :=
  let vars := withEnvFile d vars
  (documentLayer d path).map fun s => (s.applyVariables vars.get?, vars)

end Settings

end Relay

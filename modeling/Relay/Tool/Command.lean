import Relay.Locate
import Relay.Operation

/-!
# The tool's command

The tool is started as `<interpreter> <script> <operation> <file>` in the script's own directory.
Since that is another directory than the user's, script and file are made absolute first; the
interpreter is passed as it is.  The same command can be shown as a line to type.
-/

namespace Relay

/-- A program to start. -/
structure Command where
  program : String
  arguments : List Bytes
  /-- The directory to start it in. -/
  directory : Option Path
  deriving DecidableEq, Repr

/-- The command that does an operation on a file, from the working directory `cwd`. -/
def LocalTool.command (t : LocalTool) (cwd : Path) (o : Operation) (file : SourceFile) :
    Command :=
  let script := t.script.absolute cwd
  { program := t.interpreter
    arguments := [script.bytes, Utf8.encode o.word, (file.path.absolute cwd).bytes]
    directory := script.parent? }

/-- A text between double quotes, as it is. -/
def inQuotes (s : String) : String := "\"" ++ s ++ "\""

/-- The command that runs a file, as a line to type. -/
def LocalTool.commandLine (t : LocalTool) (cwd : Path) (file : SourceFile) : String :=
  inQuotes t.interpreter ++ " " ++ inQuotes (t.script.absolute cwd).display ++ " " ++
    Operation.run.word ++ " " ++ inQuotes (file.path.absolute cwd).display

end Relay

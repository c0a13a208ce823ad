import Relay.Locate

/-!
# Settings

Everything that a user can set.  Numbers are 64-bit words.
-/

namespace Relay

/-- The playground's address of someone who set none. -/
def defaultEndpoint : String := "http://127.0.0.1:8000"

/-- Everything that a user can set. -/
structure Settings where
  tool : ToolSettings
  /-- The playground's address. -/
  endpoint : String
  /-- How many seconds the tool may run. -/
  timeoutSecs : UInt64
  /-- How many octets the tool may write to each of its outputs. -/
  maxOutputBytes : UInt64
  /-- How many seconds a request may take. -/
  requestTimeoutSecs : UInt64
  /-- How many octets a server may answer. -/
  maxResponseBytes : UInt64
  /-- The key for this session. -/
  apiKey : Option String
  deriving DecidableEq, Repr, Inhabited

namespace Settings

/-- The settings of someone who set nothing. -/
def default : Settings where
  tool := .default
  endpoint := defaultEndpoint
  timeoutSecs := 30
  maxOutputBytes := 10485760
  requestTimeoutSecs := 30
  maxResponseBytes := 1048576
  apiKey := none

/-- The settings with `dir` as the only workspace folder, unless there is one. -/
def withDefaultWorkspace (s : Settings) (dir : Path) : Settings :=
  if s.tool.workspaceFolders = [] then
    { s with tool := { s.tool with workspaceFolders := [dir] } }
  else s

end Settings

end Relay

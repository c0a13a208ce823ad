import Relay.Settings.Basic
import Relay.Text.Numeral
import Relay.Variables

/-!
# Settings from the environment

Eight variables set one thing each, and a ninth the key of the session.  A number that cannot be
read sets nothing; the workspace folders are divided by colons; a blank key is no key.
-/

namespace Relay.Settings

/-- The folders of a list divided by colons, without the empty ones. -/
def splitFolders (list : String) : List Path :=
  ((Bytes.splitOn (Bytes.ascii ':') (Utf8.encode list)).filter (· ≠ [])).map Path.mk

/-- The number that a variable sets, or else the one before. -/
def countOr (current : UInt64) (value : Option String) : UInt64 :=
  match value with
  | some v => (Numeral.word? (Text.trim v)).getD current
  | none => current

/-- The settings with what the variables set. -/
def applyVariables (s : Settings) (lookup : String → Option String) : Settings where
  tool :=
    { interpreterPath := (lookup "JATTI_PYTHON_PATH").getD s.tool.interpreterPath
      toolPath := (lookup "JATTI_TOOL_PATH").getD s.tool.toolPath
      workspaceFolders :=
        ((lookup "JATTI_WORKSPACE").map splitFolders).getD s.tool.workspaceFolders }
  endpoint := (lookup "JATTI_ENDPOINT").getD s.endpoint
  timeoutSecs := countOr s.timeoutSecs (lookup "JATTI_TIMEOUT_SECS")
  maxOutputBytes := countOr s.maxOutputBytes (lookup "JATTI_MAX_OUTPUT_BYTES")
  requestTimeoutSecs := countOr s.requestTimeoutSecs (lookup "JATTI_REQUEST_TIMEOUT_SECS")
  maxResponseBytes := countOr s.maxResponseBytes (lookup "JATTI_MAX_RESPONSE_BYTES")
  apiKey :=
    match lookup "JATTI_API_KEY" with
    | some v => if Text.allBlank v then s.apiKey else some v
    | none => s.apiKey

end Relay.Settings

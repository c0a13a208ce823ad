import Relay.Duration
import Relay.Text.Utf8

/-!
# Reports

What an executor says about one request before anyone has judged it: how the call ended, what was
written, the server's reply, and whether the way to the executor itself failed.
-/

namespace Relay

/-- The body of a server's answer. -/
structure Reply where
  success : Bool
  output : Option String
  error : Option String
  timedOut : Bool
  truncated : Bool
  deriving DecidableEq, Repr, Inhabited

/-- The answer that says nothing. -/
def Reply.blank : Reply := ⟨false, none, none, false, false⟩

/-- How a call ended. -/
inductive Ending where
  /-- A server answered with this status. -/
  | http (status : Nat)
  /-- A process exited with this code. -/
  | exit (code : Int)
  /-- A process ended without a code. -/
  | signalled
  /-- A process was stopped at the time limit. -/
  | timedOut (after : Duration)
  /-- There was no executor to call. -/
  | unresolved (detail : String)
  deriving DecidableEq, Repr, Inhabited

/-- What came back from one call. -/
structure Report where
  ending : Option Ending
  stdout : String
  stderr : String
  reply : Option Reply
  transportError : Option String
  truncated : Bool
  deriving DecidableEq, Repr, Inhabited

namespace Report

/-- The report that says nothing. -/
def blank : Report := ⟨none, "", "", none, none, false⟩

/-- The way to the executor failed. -/
def transport (detail : String) : Report := { blank with transportError := some detail }

/-- There was no executor to call. -/
def unresolved (detail : String) : Report := { blank with ending := some (.unresolved detail) }

/-- A server answered. -/
def http (status : Nat) (reply : Reply) : Report :=
  { blank with ending := some (.http status), reply := some reply }

/-- A process ended, having written these octets. -/
def process (ending : Ending) (stdout stderr : Bytes) (truncated : Bool) : Report :=
  { blank with
    ending := some ending
    stdout := Utf8.decodeLossy stdout
    stderr := Utf8.decodeLossy stderr
    truncated := truncated }

end Report

end Relay

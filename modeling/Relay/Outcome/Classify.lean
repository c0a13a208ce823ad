import Relay.Outcome.Basic
import Relay.Report
import Relay.Text.Blank

/-!
# Classification

Every report is judged as exactly one outcome.  A failed way to the executor comes first, then a
missing executor; a server's answer is judged by its status and body, a process by how it ended.
What was written is never dropped: notices are added after it, each on a line of its own.
-/

namespace Relay

/-- `text` with `line` after it, on a new line unless nothing precedes it. -/
def addLine (text line : String) : String :=
  if text = "" ∨ Text.endsLine text then text ++ line else text ++ "\n" ++ line

/-- The notice for output that was cut. -/
def truncationNotice : String := "…(output truncated)"

/-- The notice for a process stopped at the time limit. -/
def timeoutNotice (after : Duration) : String := "⏱️ Timed out after " ++ after.text ++ "s"

/-- What a user is told when the server refuses the key. -/
def unauthorizedHint : String := "Unauthorized. Set an API key for the playground, then try again."

/-- The error by which a server refuses the key. -/
def unauthorizedError : String := "Unauthorized"

/-- The text, if there is any. -/
def nonempty? : Option String → Option String
  | some "" => none
  | text => text

/-- The outcome of a server's answer. -/
def Reply.outcome (status : Nat) (reply : Reply) : Outcome :=
  if status = 401 ∨ reply.error = some unauthorizedError then .unauthorized unauthorizedHint
  else if 200 ≤ status ∧ status < 300 ∧ reply.success then .success (reply.output.getD "")
  else
    .toolFailure (((nonempty? reply.output).or (nonempty? reply.error)).getD "Unknown error")
      (.remote status)

/-- What a process wrote, with the notice for cut output. -/
def Report.captured (r : Report) : String :=
  if r.truncated then addLine (r.stdout ++ r.stderr) truncationNotice else r.stdout ++ r.stderr

/-- The outcome of a process that exited with a code. -/
def Report.exitOutcome (r : Report) (code : Int) : Outcome :=
  if r.truncated then .toolFailure r.captured .outputLimit
  else if code = 0 then .success r.captured
  else .toolFailure r.captured (.code code)

/-- The outcome of a report. -/
def Report.outcome (r : Report) : Outcome :=
  match r.transportError with
  | some error => .transportFailure (addLine (r.stdout ++ r.stderr) error)
  | none =>
    match r.ending with
    | none => .transportFailure "Executor returned no status"
    | some (.unresolved detail) => .toolNotFound detail
    | some (.http status) =>
      match r.reply with
      | some reply => reply.outcome status
      | none =>
        .transportFailure ("HTTP " ++ Numeral.decimal status ++ " without a response body")
    | some (.exit code) => r.exitOutcome code
    | some .signalled =>
      .toolFailure r.captured (if r.truncated then .outputLimit else .terminated)
    | some (.timedOut after) =>
      .toolFailure (addLine r.captured (timeoutNotice after)) (.timedOut after)

end Relay

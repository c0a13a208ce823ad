import Relay.Duration
import Relay.Text.Numeral

/-!
# Outcomes

The five ways in which a request can turn out.
-/

namespace Relay

/-- Why a program that was run did not succeed. -/
inductive ExitInfo where
  | code (n : Int)
  | terminated
  | timedOut (after : Duration)
  | outputLimit
  | remote (status : Nat)
  deriving DecidableEq, Repr, Inhabited

/-- The reason as shown to a user. -/
def ExitInfo.text : ExitInfo → String
  | code n => "exit code: " ++ Numeral.signed n
  | terminated => "terminated by signal"
  | timedOut after => "timed out after " ++ after.text ++ "s"
  | outputLimit => "output limit exceeded"
  | remote status => "HTTP " ++ Numeral.decimal status

/-- How a request turned out. -/
inductive Outcome where
  /-- The program ran. -/
  | success (output : String)
  /-- The executor ran and said no. -/
  | toolFailure (output : String) (info : ExitInfo)
  /-- The server refused the key. -/
  | unauthorized (hint : String)
  /-- The executor was not reached, or the way back was lost. -/
  | transportFailure (detail : String)
  /-- There was no executor to call. -/
  | toolNotFound (detail : String)
  deriving DecidableEq, Repr, Inhabited

namespace Outcome

/-- The word for the kind of outcome. -/
def label : Outcome → String
  | success _ => "success"
  | toolFailure _ _ => "tool_failure"
  | unauthorized _ => "unauthorized"
  | transportFailure _ => "transport_failure"
  | toolNotFound _ => "tool_not_found"

/-- The request succeeded. -/
def isSuccess : Outcome → Bool
  | success _ => true
  | _ => false

end Outcome

end Relay

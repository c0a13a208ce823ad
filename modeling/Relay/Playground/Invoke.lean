import Relay.Files.Disk
import Relay.Json.Decode
import Relay.Locate
import Relay.Playground.Body
import Relay.Playground.Post
import Relay.Report
import Relay.Request

/-!
# The remote executor

A request becomes a report by way of a playground: the program is sent to it and its reply read.
What the network does with a request is a parameter.  Whatever goes wrong, there is a report.
-/

namespace Relay

open Files (Disk Failure)

/-- What came back for a request: the status, then the body as it arrives. -/
structure Response where
  status : Nat
  arrivals : List Arrival
  deriving DecidableEq, Repr

/-- A network: what comes back for a request, if anything does. -/
abbrev Network := Post → Option Response

/-- A network where nobody answers. -/
def Network.unreachable : Network := fun _ => none

/-- Why sending a program gave no reply. -/
inductive SendError where
  | network (error : NetworkError)
  | tooLarge (limit : Nat)
  | notReply (fault : Json.Fault)
  deriving DecidableEq, Repr

/-- The text shown for the error. -/
def SendError.message : SendError → String
  | network error => "Network error: " ++ error.message
  | tooLarge limit =>
    "Response too large: more than " ++ Numeral.decimal limit ++ " bytes"
  | notReply fault => "Server returned a non-JSON response: " ++ fault.message

/-- The body of a response.  A reading that never ended counts as broken. -/
def Response.body (limit : Nat) (r : Response) : Except SendError Bytes :=
  match BodyState.run limit r.arrivals with
  | .complete body => .ok body
  | .tooLarge => .error (.tooLarge limit)
  | .reading _ | .broken => .error (.network .cutShort)

/-- Sends a program and reads the reply. -/
def send (network : Network) (limit : Nat) (address code : String) (key : Option String) :
    Except SendError (Nat × Reply) := do
  let post ← (Post.build address code key).mapError .network
  match network post with
  | none => throw (.network (.unanswered post.address))
  | some response =>
    let body ← response.body limit
    let reply ← (Json.decodeReply body).mapError .notReply
    return (response.status, reply)

/-- What the remote executor says to an operation other than running. -/
def onlyRuns (o : Operation) : String :=
  "The playground only runs code; '" ++ o.word ++ "' needs the local tool."

/-- The text of a source file that cannot be read. -/
def unreadableSource (failure : Failure) : String :=
  "Failed to read source file: " ++ failure.message

/-- The program that a request is about. -/
def Origin.code (disk : Disk) : Origin → Except Failure String
  | .typed code => .ok code
  | .file source => disk.readText source.path

/-- Where a playground is, and how much of an answer is read. -/
structure RemoteSettings where
  endpoint : String
  maxResponseBytes : UInt64
  deriving DecidableEq, Repr

/-- The remote executor's report on a request. -/
def invokeRemote (network : Network) (settings : RemoteSettings) (disk : Disk)
    (request : Request) : Report :=
  if request.operation ≠ .run then .unresolved (onlyRuns request.operation)
  else
    match request.origin.code disk with
    | .error failure => .transport (unreadableSource failure)
    | .ok code =>
      match send network settings.maxResponseBytes.toNat (runAddress settings.endpoint) code
          request.header with
      | .ok (status, reply) => .http status reply
      | .error e => .transport e.message

end Relay

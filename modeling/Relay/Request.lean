import Relay.Operation
import Relay.Source
import Relay.Text.Blank

/-!
# Requests

One thing that a user asks for: a program, what to do with it, and perhaps the key that allows it.
A key goes with the request only when something is left of it after trimming.
-/

namespace Relay

/-- Where a program comes from. -/
inductive Origin where
  /-- A program as typed. -/
  | typed (code : String)
  /-- A program in a file. -/
  | file (file : SourceFile)
  deriving DecidableEq, Repr

/-- The name of the header that carries the key. -/
def keyHeaderName : String := "X-API-Key"

/-- The key to send for a value: the value trimmed, unless nothing is left. -/
def keyHeader (value : String) : Option String :=
  if Text.trim value = "" then none else some (Text.trim value)

/-- One user action. -/
structure Request where
  origin : Origin
  operation : Operation
  credential : Option String
  deriving DecidableEq, Repr

namespace Request

/-- Running a program as typed. -/
def typed (code : String) (credential : Option String) : Request :=
  ⟨.typed code, .run, credential⟩

/-- An operation on a file; no key goes with it. -/
def onFile (file : SourceFile) (operation : Operation) : Request := ⟨.file file, operation, none⟩

/-- The key that is sent with the request. -/
def header (r : Request) : Option String := r.credential.bind keyHeader

end Request

end Relay

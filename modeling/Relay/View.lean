import Relay.Operation
import Relay.Outcome.Basic
import Relay.Source

/-!
# Views

What a front end shows for an outcome: a status, an output text, and whether the user is led to
enter a key.  The playground shows output as it is; the editor frames it with a header, a rule and
a closing line.
-/

namespace Relay

/-- The colour of a status. -/
inductive StatusKind where
  | info
  | ok
  | error
  deriving DecidableEq, Repr, Inhabited

/-- A short word on how things stand. -/
structure Status where
  kind : StatusKind
  text : String
  deriving DecidableEq, Repr, Inhabited

namespace Status

/-- A neutral status. -/
def info (text : String) : Status := ⟨.info, text⟩

/-- No status. -/
def none : Status := info ""

/-- The status of a success. -/
def ok (text : String) : Status := ⟨.ok, text⟩

/-- The status of a failure. -/
def error (text : String) : Status := ⟨.error, text⟩

/-- There is nothing to show. -/
def isEmpty (s : Status) : Bool := s.text == ""

end Status

/-- What a front end shows for one outcome. -/
structure View where
  status : Status
  output : String
  focusKey : Bool
  deriving DecidableEq, Repr, Inhabited

/-- What to do about a refused key. -/
def keyAdvice : String := "Enter a key with `:key <value>`, pass --api-key, or set JATTI_API_KEY."

/-- The playground's view of an outcome. -/
def Outcome.playground : Outcome → View
  | .success output => ⟨.ok "ok", output, false⟩
  | .toolFailure output _ => ⟨.error "error", output, false⟩
  | .unauthorized hint => ⟨.error "error", hint ++ "\n" ++ keyAdvice, true⟩
  | .transportFailure detail => ⟨.error "offline?", detail, false⟩
  | .toolNotFound detail => ⟨.error "not found", detail, false⟩

/-- The rule around output in the editor. -/
def rule : String := String.ofList (List.replicate 50 '━')

/-- What the editor shows when an operation starts. -/
def Operation.header (o : Operation) (file : SourceFile) : String :=
  (match o with
    | .run => "⏳ Running: " ++ file.displayName ++ "\n📁 Path: " ++ file.path.display ++ "\n"
    | .build => "🔨 Building: " ++ file.displayName ++ "\n"
    | .format => "📝 Formatting: " ++ file.displayName ++ "\n") ++ rule ++ "\n\n"

/-- The operation as the subject of a failure. -/
def Operation.noun : Operation → String
  | .run => "Execution"
  | .build => "Build"
  | .format => "Format"

/-- The editor's last line for a success. -/
def Operation.doneLine (o : Operation) (file : SourceFile) : String :=
  match o with
  | .run => "✅ Execution completed successfully!"
  | .build => "✅ Build completed! Created: " ++ file.builtName
  | .format => "✅ Format completed!"

/-- The editor's status for a success. -/
def Operation.doneStatus (o : Operation) (file : SourceFile) : String :=
  match o with
  | .run => "✅ Jatti file executed successfully!"
  | .build => "✅ Built to " ++ file.builtName
  | .format => "✅ File formatted!"

/-- The editor's status for a failure. -/
def Operation.failedStatus (o : Operation) (info : ExitInfo) : String :=
  "❌ " ++ o.noun ++ " failed (" ++ info.text ++ ")"

/-- The editor's last line for a failure. -/
def Operation.failedLine (o : Operation) (info : ExitInfo) : String :=
  match info with
  | .code n => "❌ " ++ o.noun ++ " failed with code " ++ Numeral.signed n
  | info => o.failedStatus info

/-- Output, the rule, and a last line. -/
def framed (output line : String) : String := output ++ "\n" ++ rule ++ "\n" ++ line ++ "\n"

/-- The editor's view of an outcome. -/
def Outcome.editor (o : Operation) (file : SourceFile) : Outcome → View
  | .success output => ⟨.ok (o.doneStatus file), framed output (o.doneLine file), false⟩
  | .toolFailure output info =>
    ⟨.error (o.failedStatus info), framed output (o.failedLine info), false⟩
  | .unauthorized text | .transportFailure text | .toolNotFound text =>
    ⟨.error text, "❌ " ++ text ++ "\n", false⟩

end Relay

import Relay.Settings.Basic
import Relay.Toml.Document

/-!
# Settings from a document

A document sets things in its table `jatti`.  Names that mean nothing are passed over.  The values
may also stand in an array, in a fixed order; then none may be missing.  A document with a value of
the wrong type sets nothing at all.
-/

namespace Relay

open Toml (Value Members)

/-- What a document sets. -/
structure SettingsDocument where
  interpreterPath : Option String
  toolPath : Option String
  workspaceFolders : Option (List Path)
  endpoint : Option String
  timeoutSecs : Option UInt64
  maxOutputBytes : Option UInt64
  requestTimeoutSecs : Option UInt64
  maxResponseBytes : Option UInt64
  deriving DecidableEq, Repr

namespace SettingsDocument

/-- A document that sets nothing. -/
def blank : SettingsDocument := ⟨none, none, none, none, none, none, none, none⟩

/-- A text. -/
def text? : Value → Option String
  | .text s => some s
  | _ => none

/-- A number that is a 64-bit word. -/
def count? : Value → Option UInt64
  | .integer (.ofNat n) => Numeral.toWord? n
  | _ => none

/-- A list of paths. -/
def paths? : Value → Option (List Path)
  | .array vs => (vs.mapM text?).map (·.map Path.ofString)
  | _ => none

/-- The names that mean something. -/
def names : List String :=
  ["pythonPath", "cliPath", "workspaceFolders", "endpoint", "timeoutSecs", "maxOutputBytes",
    "requestTimeoutSecs", "maxResponseBytes"]

/-- Reads a member that may be missing; `none` outside means that it is of the wrong type. -/
def member? {α : Type} (read : Value → Option α) (name : String) (ms : Members) :
    Option (Option α) :=
  match ms.get? name with
  | none => some none
  | some v => (read v).map some

/-- Reads the members of the table. -/
def ofMembers? (ms : Members) : Option SettingsDocument := do
  let interpreterPath ← member? text? "pythonPath" ms
  let toolPath ← member? text? "cliPath" ms
  let workspaceFolders ← member? paths? "workspaceFolders" ms
  let endpoint ← member? text? "endpoint" ms
  let timeoutSecs ← member? count? "timeoutSecs" ms
  let maxOutputBytes ← member? count? "maxOutputBytes" ms
  let requestTimeoutSecs ← member? count? "requestTimeoutSecs" ms
  let maxResponseBytes ← member? count? "maxResponseBytes" ms
  if ms.all fun (name, v) => names.contains name || v.fits then
    some ⟨interpreterPath, toolPath, workspaceFolders, endpoint, timeoutSecs, maxOutputBytes,
      requestTimeoutSecs, maxResponseBytes⟩
  else none

/-- Reads the values from an array; what follows them does not matter. -/
def ofElements? : List Value → Option SettingsDocument
  | a :: b :: c :: d :: e :: f :: g :: h :: _ => do
    some ⟨← text? a, ← text? b, ← paths? c, ← text? d, ← count? e, ← count? f, ← count? g,
      ← count? h⟩
  | _ => none

/-- Reads a document. -/
def ofDocument? (ms : Members) : Option SettingsDocument :=
  if ms.all fun (name, v) => name == "jatti" || v.fits then
    match ms.get? "jatti" with
    | none => some blank
    | some (.table _ sub) => ofMembers? sub
    | some (.array vs) => ofElements? vs
    | some _ => none
  else none

/-- Reads the text of a document. -/
def parse? (text : String) : Option SettingsDocument := (Toml.parse? text).bind ofDocument?

end SettingsDocument

/-- The settings with what a document sets. -/
def Settings.applyDocument (s : Settings) (d : SettingsDocument) : Settings where
  tool :=
    { interpreterPath := d.interpreterPath.getD s.tool.interpreterPath
      toolPath := d.toolPath.getD s.tool.toolPath
      workspaceFolders := d.workspaceFolders.getD s.tool.workspaceFolders }
  endpoint := d.endpoint.getD s.endpoint
  timeoutSecs := d.timeoutSecs.getD s.timeoutSecs
  maxOutputBytes := d.maxOutputBytes.getD s.maxOutputBytes
  requestTimeoutSecs := d.requestTimeoutSecs.getD s.requestTimeoutSecs
  maxResponseBytes := d.maxResponseBytes.getD s.maxResponseBytes
  apiKey := s.apiKey

end Relay

import Relay.Files.Disk
import Relay.Json.Decode
import Relay.Json.Writer
import Relay.Text.Blank

/-!
# Stores

A store keeps texts by name across runs.  It works on a state and changes it only when a call
succeeds.  One store keeps its table in memory; one keeps it in a file, as a JSON table; one
refuses every call.  The file store starts with an empty table when the file is missing or blank,
and writes nothing when there is nothing to remove.
-/

namespace Relay

open Files (Disk Failure)

/-- Why a store refuses a call. -/
inductive StoreError where
  | io (failure : Failure)
  /-- The file does not hold a table. -/
  | json (fault : Json.Fault)
  deriving DecidableEq, Repr

/-- The text shown for the error. -/
def StoreError.message : StoreError → String
  | io failure => "IO error: " ++ failure.message
  | json fault => "JSON error: " ++ fault.message

/-- The calls of a store on states of type `σ`. -/
structure Store (σ : Type) where
  load : σ → String → Except StoreError (Option String)
  save : σ → String → String → Except StoreError σ
  remove : σ → String → Except StoreError σ

/-- The store that keeps its table in memory. -/
def memoryStore : Store Entries where
  load es name := .ok (es.get? name)
  save es name value := .ok (es.set name value)
  remove es name := .ok (es.erase name)

/-- The store that refuses every call, whatever its state. -/
def Store.refusing {σ : Type} (e : StoreError) : Store σ where
  load _ _ := .error e
  save _ _ _ := .error e
  remove _ _ := .error e

/-- The store that refuses every call with a failure, and has nothing to keep. -/
def refusingStore (failure : Failure) : Store Unit := .refusing (.io failure)

/-- The table that the text of a file holds; a blank text holds the empty one. -/
def readTable (content : String) : Except StoreError Entries :=
  if Text.allBlank content then .ok []
  else
    match Json.decodeTable (Utf8.encode content) with
    | .ok es => .ok es
    | .error f => .error (.json f)

namespace FileStore

/-- The table in the file at a path. -/
def entries (path : Path) (d : Disk) : Except StoreError Entries :=
  if d.pathExists path then
    match d.readText path with
    | .ok content => readTable content
    | .error e => .error (.io e)
  else .ok []

/-- The disk with the directory of a path made, if the path names one. -/
def withDirectory (path : Path) (d : Disk) : Except Failure Disk :=
  match path.parent? with
  | some dir => if dir.bytes = [] then .ok d else d.makeDirectories dir
  | none => .ok d

/-- The disk with a table written to the file at a path. -/
def write (path : Path) (d : Disk) (es : Entries) : Except StoreError Disk :=
  match (withDirectory path d).bind (·.write path (Utf8.encode (Json.table es))) with
  | .ok d => .ok d
  | .error e => .error (.io e)

end FileStore

/-- The store that keeps its table in the file at a path. -/
def fileStore (path : Path) : Store Disk where
  load d name := (FileStore.entries path d).map (·.get? name)
  save d name value := do FileStore.write path d ((← FileStore.entries path d).set name value)
  remove d name := do
    let es ← FileStore.entries path d
    match es.get? name with
    | some _ => FileStore.write path d (es.erase name)
    | none => .ok d

end Relay

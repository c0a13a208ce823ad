import Relay.Entries
import Relay.Json.Reader
import Relay.Operation
import Relay.Report

/-!
# The values that are read from JSON

A server's reply is an object whose five members may each be missing, or an array that holds them
in their order and may stop early.  Members with other names are skipped; one of the five that
comes twice is a mismatch.  A table of texts is an object whose members are all strings, of which
the last of each name counts.  An operation is its word, or an object with that word as its only
name and `null` as its value.
-/

namespace Relay.Json

open Bytes (ascii)

/-! ## Replies -/

/-- The members of a reply that have been read. -/
structure Draft where
  success : Option Bool
  output : Option (Option String)
  error : Option (Option String)
  timedOut : Option Bool
  truncated : Option Bool
  deriving DecidableEq, Repr

namespace Draft

/-- Nothing has been read. -/
def blank : Draft := ⟨none, none, none, none, none⟩

/-- The reply, with `false` and nothing for what is missing. -/
def reply (d : Draft) : Reply where
  success := d.success.getD false
  output := d.output.getD none
  error := d.error.getD none
  timedOut := d.timedOut.getD false
  truncated := d.truncated.getD false

end Draft

/-- Reads the value of a known member, unless there is one already. -/
def once {α : Type} (held : Option α) (value : Bytes → Except Fault (α × Bytes)) (bs : Bytes) :
    Except Fault (α × Bytes) :=
  match held with
  | some _ => .error .mismatch
  | none => (colon bs).bind value

/-- Reads one member of a reply, after its name. -/
def replyMember (d : Draft) (name : String) (bs : Bytes) : Except Fault (Draft × Bytes) :=
  if name = "success" then
    (once d.success boolean bs).map fun (v, rest) => ({ d with success := some v }, rest)
  else if name = "output" then
    (once d.output optionalText bs).map fun (v, rest) => ({ d with output := some v }, rest)
  else if name = "error" then
    (once d.error optionalText bs).map fun (v, rest) => ({ d with error := some v }, rest)
  else if name = "timedOut" then
    (once d.timedOut boolean bs).map fun (v, rest) => ({ d with timedOut := some v }, rest)
  else if name = "truncated" then
    (once d.truncated boolean bs).map fun (v, rest) => ({ d with truncated := some v }, rest)
  else
    ((colon bs).bind skip).map fun rest => (d, rest)

/-- Reads one element of an array, or none at its end; `missing` once the end has been seen. -/
def elementOr {α : Type} (missing : α) (value : Bytes → Except Fault (α × Bytes)) (first : Bool)
    (bs : Bytes) : Except Fault (α × Bytes) := do
  match ← element? first bs with
  | none => return (missing, bs)
  | some rest => value rest

/-- Reads a reply as an array, after its bracket. -/
def replyElements (bs : Bytes) : Except Fault (Reply × Bytes) := do
  let (success, bs) ← elementOr false boolean true bs
  let (output, bs) ← elementOr none optionalText false bs
  let (error, bs) ← elementOr none optionalText false bs
  let (timedOut, bs) ← elementOr false boolean false bs
  let (truncated, bs) ← elementOr false boolean false bs
  return (⟨success, output, error, timedOut, truncated⟩, ← endArray bs)

/-- Reads a reply. -/
def reply (bs : Bytes) : Except Fault (Reply × Bytes) :=
  match skipSpace bs with
  | [] => .error .ended
  | b :: rest =>
    if b = ascii '{' then
      (members replyMember (rest.length + 1) true .blank rest).map fun (d, rest) => (d.reply, rest)
    else if b = ascii '[' then replyElements rest
    else .error (wrongType (b :: rest))

/-- The reply that a body holds. -/
def decodeReply (body : Bytes) : Except Fault Reply := whole (reply body)

/-! ## Tables of texts -/

/-- Reads one member of a table, after its name. -/
def tableMember (es : Entries) (name : String) (bs : Bytes) : Except Fault (Entries × Bytes) :=
  ((colon bs).bind text).map fun (value, rest) => (es.set name value, rest)

/-- Reads a table of texts. -/
def entries (bs : Bytes) : Except Fault (Entries × Bytes) :=
  match skipSpace bs with
  | [] => .error .ended
  | b :: rest =>
    if b = ascii '{' then members tableMember (rest.length + 1) true [] rest
    else .error (wrongType (b :: rest))

/-- The table that a text holds. -/
def decodeTable (body : Bytes) : Except Fault Entries := whole (entries body)

/-! ## Operations -/

/-- The operation of a word that has been read. -/
def known (w : String) : Except Fault Operation :=
  match Operation.ofWord? w with
  | some o => .ok o
  | none => .error .mismatch

/-- Reads an operation. -/
def operation (bs : Bytes) : Except Fault (Operation × Bytes) :=
  match skipSpace bs with
  | [] => .error .ended
  | b :: rest =>
    if b = ascii '"' then do
      let (w, rest) ← string rest
      return (← known w, rest)
    else if b = ascii '{' then do
      let (w, rest) ← text rest
      let o ← known w
      let rest ← null (← colon rest)
      match skipSpace rest with
      | [] => throw .ended
      | c :: rest => if c = ascii '}' then return (o, rest) else throw .malformed
    else .error .malformed

/-- The operation that a text holds. -/
def decodeOperation (body : Bytes) : Except Fault Operation := whole (operation body)

end Relay.Json

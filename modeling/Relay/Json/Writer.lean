import Relay.Bytes
import Relay.Entries
import Relay.Report

/-!
# Writing JSON

A string is written between quotes, with an escape for the quote, the backslash and the characters
below U+0020, and everything else as it is.  The bodies of a request and of its answer are written
without space.  A table of texts is written with one member a line, two spaces deep; the empty
table is a pair of braces.
-/

namespace Relay.Json

/-- The characters that stand for one character of a string. -/
def escapeChar (c : Char) : List Char :=
  if c = '"' then ['\\', '"']
  else if c = '\\' then ['\\', '\\']
  else if c.toNat = 0x08 then ['\\', 'b']
  else if c.toNat = 0x0C then ['\\', 'f']
  else if c = '\n' then ['\\', 'n']
  else if c = '\r' then ['\\', 'r']
  else if c = '\t' then ['\\', 't']
  else if c.toNat < 0x20 then
    ['\\', 'u', '0', '0', Bytes.hexDigit (c.toNat / 16), Bytes.hexDigit (c.toNat % 16)]
  else [c]

/-- The characters between the quotes of a written string. -/
def escapeChars (cs : List Char) : List Char := cs.flatMap escapeChar

/-- A text as a JSON string. -/
def quoted (s : String) : String := String.ofList ('"' :: escapeChars s.toList ++ ['"'])

/-- The body of a request that runs a program. -/
def runBody (code : String) : String := "\x7b\"code\":" ++ quoted code ++ "\x7d"

/-- A truth value as JSON. -/
def truth (b : Bool) : String := if b then "true" else "false"

/-- A text as JSON, or `null` for none. -/
def optionalQuoted (s : Option String) : String := (s.map quoted).getD "null"

/-- An object without space, from names and values that are JSON already. -/
def compact (ms : List (String × String)) : String :=
  "\x7b" ++ ",".intercalate (ms.map fun (name, value) => quoted name ++ ":" ++ value) ++ "\x7d"

/-- The body of a server's answer. -/
def replyBody (r : Reply) : String :=
  compact [("success", truth r.success), ("output", optionalQuoted r.output),
    ("error", optionalQuoted r.error), ("timedOut", truth r.timedOut),
    ("truncated", truth r.truncated)]

/-- A table of texts, as a member a line. -/
def tableLines (entries : Entries) : List String :=
  entries.map fun (name, value) => "  " ++ quoted name ++ ": " ++ quoted value

/-- A table of texts as JSON. -/
def table (entries : Entries) : String :=
  match entries with
  | [] => "\x7b\x7d"
  | _ => "\x7b\n" ++ ",\n".intercalate (tableLines entries) ++ "\n\x7d"

end Relay.Json

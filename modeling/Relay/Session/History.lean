import Relay.Files.Disk
import Relay.Text.Blank

/-!
# History

The commands of sessions are kept in a file, oldest first.  A command that repeats the one before
it is not kept, nor is an empty one, and only the last hundred are.  The file is written when a
session ends, if it added anything.  It starts with the line `#V2`, and then each command has a
line in which a backslash and a line break are escaped; a file without that first line holds the
commands as they are.
-/

namespace Relay.Session

open Files (Disk Failure)

/-- The commands that are kept. -/
structure History where
  entries : List String
  /-- How many of them came since the file was read. -/
  added : Nat
  deriving DecidableEq, Repr

namespace History

/-- No command is kept. -/
def empty : History := ⟨[], 0⟩

/-- How many commands are kept. -/
def limit : Nat := 100

/-- The history with one more command. -/
def add (h : History) (command : String) : History :=
  if command = "" ∨ h.entries.getLast? = some command then h
  else
    let entries := h.entries ++ [command]
    ⟨entries.drop (entries.length - limit), h.added + 1⟩

/-- The line of an escaped file. -/
def marker : String := "#V2"

/-- A command that its line in an escaped file stands for. -/
def unescape : List Char → List Char
  | '\\' :: 'n' :: cs => '\n' :: unescape cs
  | '\\' :: '\\' :: cs => '\\' :: unescape cs
  | c :: cs => c :: unescape cs
  | [] => []

/-- The line of a command in an escaped file. -/
def escape (cs : List Char) : List Char :=
  cs.flatMap fun c =>
    if c = '\n' then ['\\', 'n'] else if c = '\\' then ['\\', '\\'] else [c]

/-- The lines of a content, without their breaks. -/
def fileLines (content : Bytes) : List Bytes :=
  let lines := Bytes.splitOn Bytes.newline content
  let lines := if lines.getLast? = some [] then lines.dropLast else lines
  lines.map fun l => if l.getLast? = some (Bytes.ascii '\r') then l.dropLast else l

/-- Adds the lines of a file until one that is no text. -/
def addLines (escaped : Bool) (h : History) : List Bytes → History × Option Failure
  | [] => (h, none)
  | l :: ls =>
    match Utf8.decode? l with
    | none => (h, some .notText)
    | some text =>
      let text := if escaped then String.ofList (unescape text.toList) else text
      addLines escaped (h.add text) ls

/-- The history in a file, and what went wrong. -/
def load (disk : Disk) (path : Path) : History × Option Failure :=
  match disk.read path with
  | .error e => (empty, some e)
  | .ok content =>
    let lines := fileLines content
    let escaped := lines.head? == some (Utf8.encode marker)
    match addLines escaped empty (if escaped then lines.tail else lines) with
    | (h, none) => ({ h with added := 0 }, none)
    | (h, some e) => (h, some e)

/-- The history of a session that starts: a file that does not exist is no fault. -/
def start (disk : Disk) (path : Path) : History × Option Failure :=
  if disk.pathExists path then load disk path else (empty, none)

/-- The content of the file. -/
def content (h : History) : String :=
  Text.ofLines (marker :: h.entries.map fun e => String.ofList (escape e.toList))

/-- The disk with the history in its file, if there is anything to add. -/
def save (h : History) (disk : Disk) (path : Path) : Except Failure Disk :=
  if h.entries = [] ∨ h.added = 0 then .ok disk
  else disk.write path (Utf8.encode h.content)

end History

end Relay.Session

import Relay.Text.Alphanumeric
import Relay.Text.Blank
import Relay.Text.Utf8
import Relay.Variables

/-!
# Files of variables

A file of variables has an assignment a line, `NAME=value`, with `export` before it or not.  Quotes
and a backslash at the end of a line carry an entry over lines.  In a value, single quotes keep
everything, double quotes keep blanks, a backslash keeps one character, and `$NAME` or `${NAME}`
stands for a value: that of a variable, or else that of an earlier line.  A variable that is set
already stays as it is.  Reading ends at the first bad line; the lines before it count.
-/

namespace Relay.EnvFile

/-! ## Entries -/

/-- How the text read so far ends. -/
inductive Mode where
  | plain
  | escaped
  | strong
  | strongEscaped
  | weak
  | weakEscaped
  | blank
  deriving DecidableEq, Repr, Inhabited

/-- How the text ends after one more character outside quotes. -/
def Mode.opened (c : Char) : Mode :=
  if c = '\\' then .escaped else if c = '"' then .weak else if c = '\'' then .strong else .plain

/-- How the text ends after one more character. -/
def Mode.next (m : Mode) (c : Char) : Mode :=
  match m with
  | .blank => .opened c
  | .escaped => .plain
  | .plain => if Text.isBlank c && c != '\n' && c != '\r' then .blank else .opened c
  | .weak => if c = '\\' then .weakEscaped else if c = '"' then .plain else .weak
  | .weakEscaped => .weak
  | .strong => if c = '\\' then .strongEscaped else if c = '\'' then .plain else .strong
  | .strongEscaped => .strong

/-- Goes through a line.  `none` in the first place tells that a comment starts after the
characters in the second. -/
def scanLine : Mode → List Char → Option Mode × List Char
  | m, [] => (some m, [])
  | m, c :: cs =>
    if m = .blank ∧ c = '#' then (none, [])
    else
      let (r, kept) := scanLine (m.next c) cs
      (r, c :: kept)

/-- The text without the line break at its end. -/
def dropLineEnd (cs : List Char) : List Char :=
  match cs.reverse with
  | '\n' :: '\r' :: rest => rest.reverse
  | '\n' :: rest => rest.reverse
  | _ => cs

/-- The octets line by line, each with its line break. -/
def rawLinesFrom (acc : Bytes) : Bytes → List Bytes
  | [] => if acc = [] then [] else [acc.reverse]
  | b :: bs =>
    if b = Bytes.newline then (b :: acc).reverse :: rawLinesFrom [] bs
    else rawLinesFrom (b :: acc) bs

/-- The octets of a file line by line, without a byte order mark at the front. -/
def rawLines : Bytes → List Bytes
  | 0xEF :: 0xBB :: 0xBF :: bs => rawLinesFrom [] bs
  | bs => rawLinesFrom [] bs

/-- The entries of a file.  An entry goes on over lines while a quote or an escape is open; `none`
stands for a bad one, and ends the list. -/
def entriesFrom (held : List Char) (m : Mode) : List Bytes → List (Option (List Char))
  | [] => if m = .plain then [] else [none]
  | raw :: lines =>
    match Utf8.decode? raw with
    | none => [none]
    | some line =>
      let whole := held ++ line.toList
      if (Text.trimStartChars whole).head? = some '#' then some [] :: entriesFrom [] .plain lines
      else
        match scanLine m line.toList with
        | (none, kept) => some (held ++ kept) :: entriesFrom [] .plain lines
        | (some .plain, _) => some (dropLineEnd whole) :: entriesFrom [] .plain lines
        | (some m, _) => entriesFrom whole m lines

/-- The entries of a file. -/
def entries (content : Bytes) : List (Option (List Char)) := entriesFrom [] .plain (rawLines content)

/-! ## Values -/

/-- Where a name to be replaced stands. -/
inductive Naming where
  | off
  /-- After a dollar sign. -/
  | bare
  /-- After a dollar sign and a brace. -/
  | braced
  deriving DecidableEq, Repr, Inhabited

/-- How far a value has been read. -/
structure ValueState where
  strong : Bool
  weak : Bool
  escaped : Bool
  /-- Only a comment may follow. -/
  ending : Bool
  naming : Naming
  /-- The name so far, last first. -/
  name : List Char
  /-- The value so far, last first. -/
  output : List Char
  deriving DecidableEq, Repr

/-- Nothing has been read. -/
def ValueState.start : ValueState := ⟨false, false, false, false, .off, [], []⟩

/-- The values that names stand for. -/
abbrev Meaning := String → String

/-- The name is complete: its value joins the output. -/
def ValueState.replace (s : ValueState) (meaning : Meaning) : ValueState :=
  { s with
    name := []
    output := (meaning (String.ofList s.name.reverse)).toList.reverse ++ s.output }

/-- One more character joins the output. -/
def ValueState.push (s : ValueState) (c : Char) : ValueState := { s with output := c :: s.output }

/-- The state after one more character of a name. -/
def ValueState.named (s : ValueState) (meaning : Meaning) (c : Char) : ValueState :=
  if Text.isAlphanumeric c then { s with name := c :: s.name }
  else if s.naming = .braced then
    if c = '}' then { s.replace meaning with naming := .off } else { s with name := c :: s.name }
  else if c = '{' ∧ s.name = [] then { s with naming := .braced }
  else if c = '$' then s.replace meaning
  else { (s.replace meaning).push c with naming := .off }

/-- The characters of a value after its first; `none` when it is bad. -/
def valueFrom (meaning : Meaning) (s : ValueState) : List Char → Option ValueState
  | [] => some s
  | c :: cs =>
    if s.ending then
      if c = ' ' ∨ c = '\t' then valueFrom meaning s cs
      else if c = '#' then some s
      else none
    else if s.escaped then
      if c = '\\' ∨ c = '\'' ∨ c = '"' ∨ c = '$' ∨ c = ' ' then
        valueFrom meaning { s.push c with escaped := false } cs
      else if c = 'n' then valueFrom meaning { s.push '\n' with escaped := false } cs
      else none
    else if s.strong then
      if c = '\'' then valueFrom meaning { s with strong := false } cs
      else valueFrom meaning (s.push c) cs
    else if s.naming ≠ .off then valueFrom meaning (s.named meaning c) cs
    else if c = '$' then valueFrom meaning { s with naming := .bare } cs
    else if s.weak then
      if c = '"' then valueFrom meaning { s with weak := false } cs
      else if c = '\\' then valueFrom meaning { s with escaped := true } cs
      else valueFrom meaning (s.push c) cs
    else if c = '\'' then valueFrom meaning { s with strong := true } cs
    else if c = '"' then valueFrom meaning { s with weak := true } cs
    else if c = '\\' then valueFrom meaning { s with escaped := true } cs
    else if c = ' ' ∨ c = '\t' then valueFrom meaning { s with ending := true } cs
    else valueFrom meaning (s.push c) cs

/-- The value that a text writes. -/
def value? (meaning : Meaning) (cs : List Char) : Option String :=
  match valueFrom meaning .start cs with
  | none => none
  | some s =>
    if s.naming = .braced ∨ s.strong ∨ s.weak then none
    else some (String.ofList (s.replace meaning).output.reverse)

/-! ## Assignments -/

/-- A character that a variable's name may start with. -/
def startsName (c : Char) : Bool := c.isAlpha || c == '_'

/-- A character that a variable's name may go on with. -/
def continuesName (c : Char) : Bool := c.isAlphanum || c == '_' || c == '.'

/-- Takes a variable's name and the blanks after it. -/
def takeName? : List Char → Option (String × List Char)
  | [] => none
  | c :: cs =>
    if startsName c then
      some (String.ofList (c :: cs.takeWhile continuesName),
        Text.trimStartChars (cs.dropWhile continuesName))
    else none

/-- What an entry says. -/
inductive Entry where
  | nothing
  | assign (name value : String)
  | bad
  deriving DecidableEq, Repr

/-- The value after the equals sign. -/
def assigned (meaning : Meaning) (name : String) (cs : List Char) : Entry :=
  match Text.trimStartChars cs with
  | [] => .assign name ""
  | c :: cs =>
    if c = '#' then .assign name ""
    else
      match value? meaning (c :: cs) with
      | some v => .assign name v
      | none => .bad

/-- Reads an entry. -/
def readEntry (meaning : Meaning) (cs : List Char) : Entry :=
  match Text.trimChars cs with
  | [] => .nothing
  | c :: cs =>
    if c = '#' then .nothing
    else
      match takeName? (c :: cs) with
      | none => .bad
      | some (name, '=' :: rest) => assigned meaning name rest
      | some (name, rest) =>
        if name ≠ "export" then .bad
        else
          match takeName? rest with
          | some (name, '=' :: rest) => assigned meaning name rest
          | _ => .bad

/-- The variables after the entries of a file.  `lines` are the values of the earlier lines, the
last one of each name first. -/
def applyEntries (vars lines : Variables) : List (Option (List Char)) → Variables
  | [] => vars
  | none :: _ => vars
  | some cs :: rest =>
    let meaning (name : String) : String :=
      (vars.get? name).getD ((lines.get? name).getD "")
    match readEntry meaning cs with
    | .nothing => applyEntries vars lines rest
    | .assign name value =>
      applyEntries (vars.setNew name value) ((name, value) :: lines) rest
    | .bad => vars

/-- The variables after a file of variables has been read. -/
def load (vars : Variables) (content : Bytes) : Variables := applyEntries vars [] (entries content)

end Relay.EnvFile

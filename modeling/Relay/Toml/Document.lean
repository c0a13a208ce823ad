import Relay.Toml.Scalar
import Relay.Toml.Text

/-!
# TOML documents

A document is a sequence of statements, one a line: a table header, a header that adds a table to
an array of tables, or a key with its value.  The statements are read first and then build the
tree.  A name is defined once: a header may open a table that longer headers have only gone
through, and dotted keys may go on in a table that dotted keys made.
-/

namespace Relay.Toml

/-! ## Building tables -/

/-- Changes the table that a path leads to.  A table on the way that is missing is made.  Through
an array of tables the way goes on in its last table; a table in braces is closed, and a dotted
key does not pass a table that has a header. -/
def alter (isDotted : Bool) (f : Making → Members → Option Value) :
    List String → Making → Members → Option Value
  | [], making, ms => f making ms
  | name :: path, making, ms =>
    let put (v : Value) : Value := .table making (ms.set name v)
    match ms.get? name with
    | none => (alter isDotted f path (if isDotted then .dotted else .implied) []).map put
    | some (.table m sub) =>
      if m = .inline ∨ (isDotted ∧ m = .headed) then none
      else (alter isDotted f path m sub).map put
    | some (.tables (last :: before)) =>
      match alter isDotted f path .headed last with
      | some (.table _ changed) => some (put (.tables (changed :: before)))
      | _ => none
    | some _ => none

/-- Adds a new member. -/
def insertNew (name : String) (value : Value) (making : Making) (ms : Members) : Option Value :=
  match ms.get? name with
  | none => some (.table making (ms.set name value))
  | some _ => none

/-- Adds the value of a dotted key.  The table that it ends in has to be one that dotted keys
made, unless the key has one part, and then it must not be one. -/
def insertKey (key : List String) (value : Value) (making : Making) (ms : Members) :
    Option Value :=
  match key.reverse with
  | [] => none
  | name :: way =>
    let place (m : Making) (ms : Members) : Option Value :=
      if (m = .dotted ∧ way = []) ∨ (m ≠ .dotted ∧ way ≠ []) then none
      else insertNew name value m ms
    alter true place way.reverse making ms

/-- Opens the table of a header. -/
def openTable (name : String) (making : Making) (ms : Members) : Option Value :=
  match ms.get? name with
  | none => some (.table making (ms.set name (.table .headed [])))
  | some (.table .implied sub) => some (.table making (ms.set name (.table .headed sub)))
  | some _ => none

/-- Adds a table to the array of tables of a header. -/
def pushTable (name : String) (making : Making) (ms : Members) : Option Value :=
  match ms.get? name with
  | none => some (.table making (ms.set name (.tables [[]])))
  | some (.tables ts) => some (.table making (ms.set name (.tables ([] :: ts))))
  | some _ => none

/-- Does `f` with the last name of a header in the table before it. -/
def alterLast (f : String → Making → Members → Option Value) (path : List String) (ms : Members) :
    Option Members :=
  match path.reverse with
  | [] => none
  | name :: way =>
    match alter false (f name) way.reverse .headed ms with
    | some (.table _ ms) => some ms
    | _ => none

/-- One statement of a document. -/
inductive Statement where
  | header (path : List String)
  | element (path : List String)
  | entry (key : List String) (value : Value)

/-- The document so far: its tree and the table that entries go to. -/
structure Draft where
  root : Members
  header : List String

/-- The document after one more statement. -/
def Draft.add (d : Draft) : Statement → Option Draft
  | .header path => (alterLast openTable path d.root).map fun ms => ⟨ms, path⟩
  | .element path => (alterLast pushTable path d.root).map fun ms => ⟨ms, path⟩
  | .entry key value =>
    match alter false (insertKey key value) d.header .headed d.root with
    | some (.table _ ms) => some ⟨ms, d.header⟩
    | _ => none

/-- The tree that statements build. -/
def build (statements : List Statement) : Option Members :=
  (statements.foldlM Draft.add ⟨[], []⟩).map Draft.root

/-- The table in braces that entries build. -/
def buildInline (entries : List (List String × Value)) : Option Value :=
  let add (v : Value) (entry : List String × Value) : Option Value :=
    match v with
    | .table m ms => insertKey entry.1 entry.2 m ms
    | _ => none
  match entries.foldlM add (.table .headed []) with
  | some (.table _ ms) => some (.table .inline ms)
  | _ => none

/-! ## Reading -/

/-- Skips blanks, line breaks and comments, as they may stand between brackets.  A character that
may not stand in a comment ends the gap. -/
def skipGap (inComment : Bool) : List Char → List Char
  | [] => []
  | '\r' :: '\n' :: cs => skipGap false cs
  | c :: cs =>
    if c = '\n' then skipGap false cs
    else if inComment then (if isPlain c then skipGap true cs else c :: cs)
    else if c = '#' then skipGap true cs
    else if isGapChar c then skipGap false cs
    else c :: cs

/-- The text after a comment, if there is one. -/
def skipComment : List Char → List Char
  | '#' :: cs => cs.dropWhile isPlain
  | cs => cs

/-- How deep brackets and braces may stand in each other. -/
def depthLimit : Nat := 80

mutual

/-- Reads a value; `depth` more levels may open. -/
def value? : Nat → Nat → List Char → Option (Value × List Char)
  | 0, _, _ => none
  | fuel + 1, depth, cs =>
    match cs with
    | '[' :: rest =>
      if depth = 0 then none
      else (elements? fuel (depth - 1) (skipGap false rest)).map fun (vs, rest) => (.array vs, rest)
    | '{' :: rest =>
      if depth = 0 then none
      else
        match inlineEntries? fuel (depth - 1) (skipGap false rest) with
        | some (entries, rest) => (buildInline entries).map fun v => (v, rest)
        | none => none
    | '"' :: _ => (string? cs).map fun (s, rest) => (.text s, rest)
    | '\'' :: _ => (string? cs).map fun (s, rest) => (.text s, rest)
    | _ =>
      let (run, rest) := takeScalar cs
      (scalar? run).map fun v => (v, rest)

/-- Reads the elements of an array up to its bracket. -/
def elements? : Nat → Nat → List Char → Option (List Value × List Char)
  | 0, _, _ => none
  | fuel + 1, depth, cs =>
    match cs with
    | ']' :: rest => some ([], rest)
    | _ => do
      let (v, rest) ← value? fuel depth cs
      match skipGap false rest with
      | ',' :: rest => do
        let (vs, rest) ← elements? fuel depth (skipGap false rest)
        some (v :: vs, rest)
      | ']' :: rest => some ([v], rest)
      | _ => none

/-- Reads the entries of a table in braces up to its brace. -/
def inlineEntries? : Nat → Nat → List Char →
    Option (List (List String × Value) × List Char)
  | 0, _, _ => none
  | fuel + 1, depth, cs =>
    match cs with
    | '}' :: rest => some ([], rest)
    | _ => do
      let (key, rest) ← key? cs
      let rest ← match skipBlanks rest with
        | '=' :: rest => some (skipBlanks rest)
        | _ => none
      let (v, rest) ← value? fuel depth rest
      match skipGap false rest with
      | ',' :: rest => do
        let (entries, rest) ← inlineEntries? fuel depth (skipGap false rest)
        some ((key, v) :: entries, rest)
      | '}' :: rest => some ([(key, v)], rest)
      | _ => none

end

/-- Reads a header after its first bracket. -/
def header? : List Char → Option (Statement × List Char)
  | '[' :: cs => do
    let (path, rest) ← key? (skipBlanks cs)
    match skipBlanks rest with
    | ']' :: ']' :: rest => some (.element path, rest)
    | _ => none
  | cs => do
    let (path, rest) ← key? (skipBlanks cs)
    match skipBlanks rest with
    | ']' :: rest => some (.header path, rest)
    | _ => none

/-- Reads a key with its value.  Every level and every element takes a character, so twice the
length is enough fuel. -/
def keyValue? (cs : List Char) : Option (Statement × List Char) := do
  let (key, rest) ← key? cs
  match skipBlanks rest with
  | '=' :: rest => do
    let (v, rest) ← value? (2 * rest.length + 2) depthLimit (skipBlanks rest)
    some (.entry key v, rest)
  | _ => none

/-- Reads what a line holds before its comment; `none` inside stands for an empty line. -/
def line? (cs : List Char) : Option (Option Statement × List Char) :=
  match skipBlanks cs with
  | [] => some (none, [])
  | '#' :: cs => some (none, '#' :: cs)
  | '\n' :: cs => some (none, '\n' :: cs)
  | '\r' :: cs => some (none, '\r' :: cs)
  | '[' :: cs => (header? cs).map fun (s, rest) => (some s, rest)
  | cs => (keyValue? cs).map fun (s, rest) => (some s, rest)

/-- Reads the statements of a text; `fuel` bounds the number of lines. -/
def statements? : Nat → List Char → Option (List Statement)
  | 0, _ => none
  | fuel + 1, cs => do
    let (statement, rest) ← line? cs
    let rest := skipComment (skipBlanks rest)
    let more ← match rest with
      | [] => some []
      | _ => (newline? rest).bind (statements? fuel)
    return statement.toList ++ more

/-- The text without a byte order mark at its front. -/
def dropMark : List Char → List Char
  | c :: cs => if c = Char.ofNat 0xFEFF then cs else c :: cs
  | [] => []

/-- The tree of a document, if the text is one. -/
def parse? (text : String) : Option Members :=
  let cs := dropMark text.toList
  (statements? (cs.length + 1) cs).bind build

end Relay.Toml

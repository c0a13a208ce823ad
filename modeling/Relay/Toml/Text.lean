import Relay.Text.Numeral

/-!
# Strings and keys in TOML

A basic string stands between double quotes and has escapes; a literal string stands between
single quotes and has none.  Three quotes make either of them run over lines: a line break right
after the opening is dropped, and a backslash at the end of a line drops the blanks up to the next
character.  A key is a string of one line or a run of letters, digits, dashes and underscores.
-/

namespace Relay.Toml

/-- A blank inside a line. -/
def isGapChar (c : Char) : Bool := c == ' ' || c == '\t'

/-- The text without the blanks at its front. -/
def skipBlanks (cs : List Char) : List Char := cs.dropWhile isGapChar

/-- Takes a line break. -/
def newline? : List Char → Option (List Char)
  | '\n' :: cs => some cs
  | '\r' :: '\n' :: cs => some cs
  | _ => none

/-- A character that may stand in a comment or a literal string: no control character but the
tab. -/
def isPlain (c : Char) : Bool := c == '\t' || (0x20 ≤ c.toNat && c.toNat != 0x7F)

/-- The character of a one-letter escape. -/
def shortEscape? : Char → Option Char
  | 'b' => some (Char.ofNat 0x08)
  | 't' => some '\t'
  | 'n' => some '\n'
  | 'f' => some (Char.ofNat 0x0C)
  | 'r' => some '\r'
  | 'e' => some (Char.ofNat 0x1B)
  | '"' => some '"'
  | '\\' => some '\\'
  | _ => none

/-- How many hexadecimal digits follow the letter of an escape. -/
def escapeWidth? : Char → Option Nat
  | 'x' => some 2
  | 'u' => some 4
  | 'U' => some 8
  | _ => none

/-- The character of `n` hexadecimal digits, if it is one. -/
def hexChar? (n : Nat) (cs : List Char) : Option Char := do
  let ds ← (cs.take n).mapM Numeral.hexDigit?
  let value := ds.foldl (fun acc d => acc * 16 + d) 0
  if ds.length = n ∧ value.isValidChar then some (Char.ofNat value) else none

/-- The character of an escape, after the backslash, and how many characters wrote it. -/
def escape? : List Char → Option (Char × Nat)
  | [] => none
  | c :: cs =>
    match shortEscape? c with
    | some x => some (x, 1)
    | none => do
      let n ← escapeWidth? c
      let x ← hexChar? n cs
      some (x, n + 1)

/-- Reads a basic string of one line on to its closing quote; `skip` characters of an escape that
has been read are still to pass, and `acc` holds the text so far, last first. -/
def basicFrom (acc : List Char) : Nat → List Char → Option (String × List Char)
  | _, [] => none
  | skip + 1, _ :: cs => basicFrom acc skip cs
  | 0, c :: cs =>
    if c = '"' then some (String.ofList acc.reverse, cs)
    else if c = '\\' then
      match escape? cs with
      | some (x, n) => basicFrom (x :: acc) n cs
      | none => none
    else if isPlain c then basicFrom (c :: acc) 0 cs
    else none

/-- Reads a literal string of one line after its opening quote. -/
def literal? (cs : List Char) : Option (String × List Char) :=
  let body := cs.takeWhile fun c => isPlain c && c != '\''
  match cs.drop body.length with
  | c :: rest => if c = '\'' then some (String.ofList body, rest) else none
  | [] => none

/-- The closing of a string over lines: the number of quotes that still belong to it, at most two,
and what follows.  `none` where fewer than three quotes stand. -/
def closing? (q : Char) (cs : List Char) : Option (Nat × List Char) :=
  let run := (cs.takeWhile (· == q)).length
  if run < 3 then none else some (min run 5 - 3, cs.drop (min run 5))

/-- The backslash ends its line: only blanks stand before the line break. -/
def endsLine (cs : List Char) : Bool := (newline? (skipBlanks cs)).isSome

/-- How many blanks and line breaks stand at the front. -/
def gapLength : List Char → Nat
  | '\r' :: '\n' :: cs => gapLength cs + 2
  | c :: cs => if isGapChar c || c == '\n' then gapLength cs + 1 else 0
  | [] => 0

/-- Reads a basic string over lines on to its closing quotes. -/
def basicLinesFrom (acc : List Char) : Nat → List Char → Option (String × List Char)
  | _, [] => none
  | skip + 1, _ :: cs => basicLinesFrom acc skip cs
  | 0, c :: cs =>
    if c = '"' then
      match closing? '"' (c :: cs) with
      | some (n, rest) => some (String.ofList (List.replicate n '"' ++ acc).reverse, rest)
      | none => basicLinesFrom (c :: acc) 0 cs
    else if c = '\\' then
      if endsLine cs then basicLinesFrom acc (gapLength cs) cs
      else
        match escape? cs with
        | some (x, n) => basicLinesFrom (x :: acc) n cs
        | none => none
    else if c = '\r' then
      if cs.head? = some '\n' then basicLinesFrom (c :: acc) 0 cs else none
    else if isPlain c || c == '\n' then basicLinesFrom (c :: acc) 0 cs
    else none

/-- Reads a literal string over lines on to its closing quotes. -/
def literalLinesFrom (acc : List Char) : List Char → Option (String × List Char)
  | [] => none
  | c :: cs =>
    if c = '\'' then
      match closing? '\'' (c :: cs) with
      | some (n, rest) => some (String.ofList (List.replicate n '\'' ++ acc).reverse, rest)
      | none => literalLinesFrom (c :: acc) cs
    else if c = '\r' then
      if cs.head? = some '\n' then literalLinesFrom (c :: acc) cs else none
    else if isPlain c || c == '\n' then literalLinesFrom (c :: acc) cs
    else none

/-- The text without a line break at its front. -/
def dropNewline (cs : List Char) : List Char := (newline? cs).getD cs

/-- Reads a string value. -/
def string? : List Char → Option (String × List Char)
  | '"' :: '"' :: '"' :: cs => basicLinesFrom [] 0 (dropNewline cs)
  | '"' :: cs => basicFrom [] 0 cs
  | '\'' :: '\'' :: '\'' :: cs => literalLinesFrom [] (dropNewline cs)
  | '\'' :: cs => literal? cs
  | _ => none

/-- A character of a key without quotes. -/
def isBareKeyChar (c : Char) : Bool := c.isAlphanum || c == '-' || c == '_'

/-- Reads one part of a key. -/
def keyPart? : List Char → Option (String × List Char)
  | '"' :: cs => basicFrom [] 0 cs
  | '\'' :: cs => literal? cs
  | cs =>
    let bare := cs.takeWhile isBareKeyChar
    if bare.isEmpty then none else some (String.ofList bare, cs.drop bare.length)

/-- Reads the parts of a dotted key; `fuel` bounds their number. -/
def keyParts? : Nat → List Char → Option (List String × List Char)
  | 0, _ => none
  | fuel + 1, cs => do
    let (part, rest) ← keyPart? cs
    match skipBlanks rest with
    | '.' :: more => do
      let (parts, rest) ← keyParts? fuel (skipBlanks more)
      some (part :: parts, rest)
    | _ => some ([part], rest)

/-- Reads a key.  Every part takes a character. -/
def key? (cs : List Char) : Option (List String × List Char) := keyParts? (cs.length + 1) cs

end Relay.Toml

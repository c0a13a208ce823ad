import Relay.Bytes

/-!
# Shell scripts

The structure of a script for the command language: words with their quotes and expansions,
redirections, and commands.  Texts are lists of characters below U+0100, one for each octet.
-/

namespace Relay.Shell

/-- A text, one character for each octet. -/
abbrev Chars := List Char

/-- The octets of a text. -/
def toBytes (cs : Chars) : Bytes := cs.map fun c => UInt8.ofNat c.toNat

/-- The text of octets. -/
def ofBytes (bs : Bytes) : Chars := bs.map fun b => Char.ofNat b.toNat

/-- What `${name…}` does with the value. -/
inductive Change where
  /-- Nothing. -/
  | none
  /-- Its length. -/
  | length
  /-- Takes a pattern off one end. -/
  | trim (atEnd longest : Bool)
  /-- Another word when there is no value; `alsoEmpty` takes an empty value for none. -/
  | default (alsoEmpty : Bool)
  /-- Another word that is also assigned when there is no value. -/
  | assign (alsoEmpty : Bool)
  /-- Another word when there is a value. -/
  | alternative (alsoEmpty : Bool)
  /-- An error when there is no value. -/
  | demand (alsoEmpty : Bool)
  deriving DecidableEq, Repr, Inhabited

/-- A part of a word.  Quoted parts are neither split nor matched against names. -/
inductive Part where
  | text (cs : Chars) (quoted : Bool)
  | value (name : Chars) (change : Change) (word : List Part) (quoted : Bool)
  /-- What a script writes. -/
  | output (source : Chars) (quoted : Bool)
  /-- The value of an integer expression. -/
  | arithmetic (source : List Part) (quoted : Bool)
  deriving Inhabited

/-- A word. -/
abbrev Word := List Part

/-- Where a command reads or writes instead. -/
inductive Redirection where
  | input (fd : Nat) (file : Word)
  | output (fd : Nat) (file : Word) (append : Bool)
  | duplicate (fd : Nat) (source : Word)
  | document (fd : Nat) (body : Word)
  deriving Inhabited

/-- A command. -/
inductive Script where
  | nothing
  | simple (line : Nat) (assignments : List (Chars × Word)) (words : List Word)
      (redirections : List Redirection)
  /-- Each command reads what the one before it writes. -/
  | pipeline (commands : List Script) (negated : Bool)
  | both (first second : Script)
  | either (first second : Script)
  | sequence (first second : Script)
  /-- In the background, which here means at once. -/
  | background (body : Script)
  | group (body : Script) (redirections : List Redirection)
  | subshell (body : Script) (redirections : List Redirection)
  | choice (condition yes no : Script) (redirections : List Redirection)
  | loop (expected : Bool) (condition body : Script) (redirections : List Redirection)
  | each (name : Chars) (words : Option (List Word)) (body : Script)
      (redirections : List Redirection)
  | cases (word : Word) (branches : List (List Word × Script)) (redirections : List Redirection)
  | function (name : Chars) (body : Script)
  deriving Inhabited

end Relay.Shell

import Relay.Files.Failure
import Relay.Path

/-!
# File trees

A tree gives an entry to each location, a location being the names on the way from the root.  A
path is followed from a directory step by step: `..` goes to the parent, a link goes where its
target says, and at most forty links are followed.  The walk ends at an entry, or at a free name in
a directory.
-/

namespace Relay.Files

open Bytes (slash dot)

/-- The names from the root to an entry. -/
abbrev Location := List Bytes

/-- What stands at a location. -/
inductive Entry where
  | file (content : Bytes) (executable : Bool)
  | directory
  | link (target : Bytes)
  /-- A file without end that reads as zeros, or one that is always empty. -/
  | device (zeros : Bool)
  /-- A program that the machine comes with. -/
  | program (name : Bytes)
  deriving DecidableEq, Repr, Inhabited

/-- A file tree: entries by location.  The root is always a directory. -/
structure Tree where
  entries : List (Location × Entry)
  deriving Repr, Inhabited

namespace Tree

/-- The tree with nothing in it. -/
def empty : Tree := ⟨[]⟩

/-- The entry at a location. -/
def get? (t : Tree) (l : Location) : Option Entry :=
  if l = [] then some .directory else t.entries.lookup l

/-- The tree with an entry put at a location. -/
def insert (t : Tree) (l : Location) (e : Entry) : Tree :=
  ⟨(l, e) :: t.entries.filter (·.1 != l)⟩

/-- The tree without a location and all below it. -/
def erase (t : Tree) (l : Location) : Tree :=
  ⟨t.entries.filter fun p => !(l.isPrefixOf p.1)⟩

/-- The names in a directory. -/
def children (t : Tree) (l : Location) : List Bytes :=
  t.entries.filterMap fun p =>
    if p.1.length = l.length + 1 ∧ l.isPrefixOf p.1 then p.1.getLast? else none

end Tree

/-- Where a walk ends. -/
inductive Place where
  | found (location : Location) (entry : Entry)
  /-- A free name in a directory; `closed` when a slash followed it. -/
  | free (directory : Location) (name : Bytes) (closed : Bool)
  deriving Repr, Inhabited

/-- How many links one walk follows. -/
def linkLimit : Nat := 40

/-- The longest name. -/
def nameLimit : Nat := 255

/-- The longest path. -/
def pathLimit : Nat := 4095

/-- The pieces that a path goes through. -/
def steps (path : Bytes) : List Bytes := (Bytes.splitOn slash path).filter (· ≠ [])

/-- The path asks for a directory: it ends in a slash. -/
def asksDirectory (path : Bytes) : Bool := path.getLast? == some slash

/-- Follows the steps from the directory `here`.  `links` more links may be followed; a link at the
last step is followed if `follow` says so or a directory is asked for. -/
def walkFrom (t : Tree) (follow closed : Bool) (links : Nat) (here : Location) :
    List Bytes → Except SystemError Place
  | [] =>
    match t.get? here with
    | some e => if closed && e != .directory then .error .notDirectory else .ok (.found here e)
    | none => .error .noEntry
  | step :: rest =>
    match t.get? here with
    | none => .error .noEntry
    | some .directory =>
      if step = [dot] then walkFrom t follow closed links here rest
      else if step = Path.up then walkFrom t follow closed links here.dropLast rest
      else if nameLimit < step.length then .error .nameTooLong
      else
        let next := here ++ [step]
        match t.get? next with
        | none => if rest = [] then .ok (.free here step closed) else .error .noEntry
        | some (.link target) =>
          if rest = [] ∧ !follow ∧ !closed then .ok (.found next (.link target))
          else
            match links with
            | 0 => .error .tooManyLinks
            | links + 1 =>
              let start := if target.head? = some slash then [] else here
              let closed := if rest = [] then closed || asksDirectory target else closed
              walkFrom t follow closed links start (steps target ++ rest)
        | some _ => walkFrom t follow closed links next rest
    | some _ => .error .notDirectory
termination_by rest => (links, rest.length)

/-- Follows a path from the working directory `cwd`. -/
def Tree.walk (t : Tree) (follow : Bool) (cwd : Location) (p : Path) : Except Failure Place :=
  if p.bytes.contains 0 then .error .zeroInPath
  else if p.bytes = [] then .error (.system .noEntry)
  else if pathLimit < p.bytes.length then .error (.system .nameTooLong)
  else
    let start := if p.isAbsolute then [] else cwd
    match walkFrom t follow (asksDirectory p.bytes) linkLimit start (steps p.bytes) with
    | .ok place => .ok place
    | .error e => .error (.system e)

end Relay.Files

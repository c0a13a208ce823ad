import Relay.Files.Tree

/-!
# Disks

A disk is a file tree seen from a working directory.  These are the operations that the rest of the
library asks of it; each answers or fails, and the writing ones give the disk afterwards.
-/

namespace Relay.Files

/-- A file tree and the directory from which relative paths are followed. -/
structure Disk where
  tree : Tree
  cwd : Location
  deriving Repr, Inhabited

namespace Disk

/-- The path of a location. -/
def pathOf (l : Location) : Path := ⟨Bytes.slash :: Bytes.joinWith Bytes.slash l⟩

/-- The path of the working directory. -/
def cwdPath (d : Disk) : Path := pathOf d.cwd

/-- The entry that a path leads to, links followed. -/
def stat (d : Disk) (p : Path) : Except Failure (Location × Entry) :=
  match d.tree.walk true d.cwd p with
  | .ok (.found l e) => .ok (l, e)
  | .ok (.free _ _ _) => .error (.system .noEntry)
  | .error e => .error e

/-- The path leads to something. -/
def pathExists (d : Disk) (p : Path) : Bool := (d.stat p).isOk

/-- The path leads to a regular file. -/
def isFile (d : Disk) (p : Path) : Bool :=
  match d.stat p with
  | .ok (_, .file _ _) | .ok (_, .program _) => true
  | _ => false

/-- The path leads to a directory. -/
def isDirectory (d : Disk) (p : Path) : Bool :=
  match d.stat p with
  | .ok (_, .directory) => true
  | _ => false

/-- The octets of the file that a path leads to. -/
def read (d : Disk) (p : Path) : Except Failure Bytes :=
  match d.stat p with
  | .ok (_, .file content _) => .ok content
  | .ok (_, .directory) => .error (.system .isDirectory)
  | .ok (_, _) => .ok []
  | .error e => .error e

/-- The text of the file that a path leads to. -/
def readText (d : Disk) (p : Path) : Except Failure String :=
  match d.read p with
  | .ok content => (Utf8.decode? content).elim (.error .notText) .ok
  | .error e => .error e

/-- The disk with the file at a path replaced, or made in a directory that is there. -/
def write (d : Disk) (p : Path) (content : Bytes) : Except Failure Disk :=
  match d.tree.walk true d.cwd p with
  | .ok (.found l (.file _ executable)) =>
    .ok { d with tree := d.tree.insert l (.file content executable) }
  | .ok (.found _ .directory) => .error (.system .isDirectory)
  | .ok (.found _ _) => .ok d
  | .ok (.free _ _ true) => .error (.system .isDirectory)
  | .ok (.free l name false) =>
    .ok { d with tree := d.tree.insert (l ++ [name]) (.file content false) }
  | .error e => .error e

/-- The disk with one directory made. -/
def makeDirectory (d : Disk) (p : Path) : Except Failure Disk :=
  match d.tree.walk false d.cwd p with
  | .ok (.found _ _) => .error (.system .alreadyExists)
  | .ok (.free l name _) => .ok { d with tree := d.tree.insert (l ++ [name]) .directory }
  | .error e => .error e

/-- The path and the paths that it goes through, longest first, down to but not including the
root or the empty path. -/
def ancestors (fuel : Nat) (p : Path) : List Path :=
  match fuel, p.parent? with
  | _, none => []
  | 0, some _ => [p]
  | fuel + 1, some q => if p.bytes = [] then [] else p :: ancestors fuel q

/-- Makes the directories of a list from the last back to the first; one that is there already
does not matter. -/
def makeEach (d : Disk) : List Path → Except Failure Disk
  | [] => .ok d
  | p :: rest =>
    match d.makeDirectory p with
    | .ok d => makeEach d rest
    | .error e => if e = .system .alreadyExists ∧ d.isDirectory p then makeEach d rest else .error e

/-- Tries the paths in order: those that lack a parent are kept for later, and the first one that
can be made, or is a directory, ends the search. -/
def makeFirst (d : Disk) (later : List Path) : List Path → Except Failure (Disk × List Path)
  | [] => .ok (d, later)
  | p :: rest =>
    match d.makeDirectory p with
    | .ok d => .ok (d, later)
    | .error e =>
      if e = .system .noEntry then makeFirst d (p :: later) rest
      else if e = .system .alreadyExists ∧ d.isDirectory p then .ok (d, later)
      else .error e

/-- The disk with a directory made, and before it all that it stands in. -/
def makeDirectories (d : Disk) (p : Path) : Except Failure Disk :=
  match d.makeFirst [] (ancestors p.bytes.length p) with
  | .ok (d, later) => d.makeEach later
  | .error e => .error e

/-- The disk without what a path names, a link itself included. -/
def remove (d : Disk) (p : Path) : Disk :=
  match d.tree.walk false d.cwd p with
  | .ok (.found l _) => { d with tree := d.tree.erase l }
  | _ => d

/-- The disk with a link made. -/
def link (d : Disk) (p : Path) (target : Bytes) : Except Failure Disk :=
  match d.tree.walk false d.cwd p with
  | .ok (.found _ _) => .error (.system .alreadyExists)
  | .ok (.free l name _) => .ok { d with tree := d.tree.insert (l ++ [name]) (.link target) }
  | .error e => .error e

/-- The disk with the right to execute a file given or taken. -/
def setExecutable (d : Disk) (p : Path) (executable : Bool) : Disk :=
  match d.stat p with
  | .ok (l, .file content _) => { d with tree := d.tree.insert l (.file content executable) }
  | _ => d

end Disk

end Relay.Files

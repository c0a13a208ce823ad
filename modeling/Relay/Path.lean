import Relay.Text.Utf8

/-!
# Paths

A path is a sequence of octets, kept as written.  Its pieces are what stands between the slashes;
an empty piece and a piece `.` name nothing, except that a path may start at the current directory
with a leading `.`.  The name of a path is its last piece that names something, unless that is
`..`.  Nothing here looks at a file.
-/

namespace Relay

/-- A path, as written. -/
structure Path where
  bytes : Bytes
  deriving DecidableEq, Repr, Inhabited

namespace Path

open Bytes (slash dot)

/-- The path that a text writes. -/
def ofString (s : String) : Path := ⟨Utf8.encode s⟩

/-- The path as text, for a message. -/
def display (p : Path) : String := Utf8.decodeLossy p.bytes

/-- The path starts at the root. -/
def isAbsolute (p : Path) : Bool := p.bytes.head? == some slash

/-- The piece `..`. -/
def up : Bytes := [dot, dot]

/-- A piece that names nothing. -/
def isVoid (piece : Bytes) : Bool := piece == [] || piece == [dot]

/-- What stands before the names: the slash of an absolute path, or the `.` of a path that starts
at the current directory. -/
def lead (p : Path) : Bytes :=
  match p.bytes with
  | [] => []
  | b :: rest =>
    if b = slash then [slash]
    else if b = dot ∧ (rest.head? = none ∨ rest.head? = some slash) then [dot]
    else []

/-- What stands after the lead. -/
def body (p : Path) : Bytes := p.bytes.drop p.lead.length

/-- The pieces after the lead, in order. -/
def pieces (p : Path) : List Bytes := Bytes.splitOn slash p.body

/-- The pieces that name something, in order; `..` is one of them. -/
def names (p : Path) : List Bytes := p.pieces.filter (!isVoid ·)

/-- One step of the way that a path describes. -/
inductive Component where
  | root
  | here
  | up
  | name (name : Bytes)
  deriving DecidableEq, Repr

/-- The step of a piece that names something. -/
def Component.ofPiece (piece : Bytes) : Component := if piece = Path.up then .up else .name piece

/-- The steps of a path. -/
def components (p : Path) : List Component :=
  let first :=
    if p.lead = [slash] then [Component.root] else if p.lead = [dot] then [.here] else []
  first ++ p.names.map .ofPiece

/-- The last piece that names something, with the pieces before it (nearest first) and the void
pieces after it (last first). -/
def lastPiece? (p : Path) : Option (Bytes × List Bytes × List Bytes) :=
  let backwards := p.pieces.reverse
  match backwards.dropWhile isVoid with
  | [] => none
  | piece :: before => some (piece, before, backwards.takeWhile isVoid)

/-- The name of a path: its last piece that names something, unless that is `..`. -/
def fileName? (p : Path) : Option Bytes :=
  match p.lastPiece? with
  | some (piece, _, _) => if piece = up then none else some piece
  | none => none

/-- The path without its last step, void pieces around it included. -/
def parent? (p : Path) : Option Path :=
  match p.lastPiece? with
  | some (_, before, _) =>
    some ⟨p.lead ++ Bytes.joinWith slash (before.dropWhile isVoid).reverse⟩
  | none => if p.lead = [dot] then some ⟨[]⟩ else none

/-- The path `q` taken from `p`: one slash between them unless `p` is empty or ends in one, and
`q` itself when it is absolute. -/
def join (p q : Path) : Path :=
  if q.isAbsolute then q
  else if p.bytes = [] ∨ p.bytes.getLast? = some slash then ⟨p.bytes ++ q.bytes⟩
  else ⟨p.bytes ++ slash :: q.bytes⟩

/-- A name in two: before and after its last dot.  A name whose only dot leads it has no second
part. -/
def splitName (name : Bytes) : Bytes × Option Bytes :=
  let backwards := name.reverse
  let after := backwards.takeWhile (· ≠ dot)
  match backwards.dropWhile (· ≠ dot) with
  | _ :: before =>
    if before = [] then (name, none) else (before.reverse, some after.reverse)
  | [] => (name, none)

/-- The name without its extension. -/
def stem (name : Bytes) : Bytes := (splitName name).1

/-- The extension of the path's name. -/
def extension? (p : Path) : Option Bytes := p.fileName?.bind fun name => (splitName name).2

/-- How many octets stand after the path's last name. -/
def tailLength (p : Path) : Nat :=
  match p.lastPiece? with
  | some (_, _, after) => after.foldr (fun piece n => piece.length + 1 + n) 0
  | none => 0

/-- The path cut after the stem of its name, with `.ext` put there; a path without a name stays. -/
def putExtension (p : Path) (ext : Bytes) : Path :=
  match p.fileName? with
  | some name =>
    let start := p.bytes.length - p.tailLength - name.length
    ⟨p.bytes.take (start + (stem name).length) ++ dot :: ext⟩
  | none => p

/-- The path with its extension replaced.  The octets of the old extension are first taken off the
end of the text; what is left then gets the new one after the stem of its own name. -/
def withExtension (p : Path) (ext : Bytes) : Path :=
  match p.extension? with
  | some old => putExtension ⟨p.bytes.take (p.bytes.length - old.length)⟩ ext
  | none => p.putExtension ext

/-- The text starts with exactly two slashes. -/
def startsWithTwoSlashes (p : Path) : Bool :=
  p.bytes.take 2 == [slash, slash] && p.bytes.take 3 != [slash, slash, slash]

/-- The path with one slash at its end. -/
def closed (p : Path) : Path :=
  if p.bytes.getLast? = some slash ∨ p.bytes = [] then p else ⟨p.bytes ++ [slash]⟩

/-- The path taken from the directory `cwd`: void pieces and repeated slashes are dropped, `..` and
a slash at the end are kept, and so are exactly two slashes at the front.  The empty path stays
empty. -/
def absolute (p cwd : Path) : Path :=
  if p.bytes = [] then p
  else
    let base : Path :=
      if p.isAbsolute then
        if p.startsWithTwoSlashes then ⟨[slash, slash]⟩ else ⟨[slash]⟩
      else cwd
    let full := p.names.foldl (fun q name => q.join ⟨name⟩) base
    if p.bytes.getLast? = some slash then full.closed else full

end Path

end Relay

import Relay.Path

/-!
# Source files

A path is accepted as a source file when its name is text and ends in `.jatti`.  The file knows
the directory it stands in, the name it is shown by, and the file that building it produces.
-/

namespace Relay

/-- The end of a source file's name. -/
def sourceSuffix : String := ".jatti"

/-- The extension of what building a source file produces. -/
def builtExtension : String := "py"

/-- The name of the path is text and ends in the source suffix. -/
def Path.namesSource (p : Path) : Bool :=
  match p.fileName? with
  | some name =>
    match Utf8.decode? name with
    | some text => sourceSuffix.toList.isSuffixOf text.toList
    | none => false
  | none => false

/-- A path that names a source file. -/
structure SourceFile where
  path : Path
  namesSource : path.namesSource = true
  deriving DecidableEq, Repr

namespace SourceFile

/-- The source file of a path, if its name is one. -/
def ofPath? (p : Path) : Option SourceFile :=
  if h : p.namesSource = true then some ⟨p, h⟩ else none

/-- The directory that holds the file. -/
def directory (f : SourceFile) : Path := f.path.parent?.getD ⟨[]⟩

/-- The name that the file is shown by. -/
def displayName (f : SourceFile) : String :=
  match f.path.fileName? with
  | some name => Utf8.decodeLossy name
  | none => ""

/-- The file that building this one produces, beside it. -/
def built (f : SourceFile) : Path := f.path.withExtension (Utf8.encode builtExtension)

/-- The name that the built file is shown by. -/
def builtName (f : SourceFile) : String :=
  match f.built.fileName? with
  | some name => Utf8.decodeLossy name
  | none => ""

theorem ofPath?_eq_some_iff {p : Path} {f : SourceFile} : ofPath? p = some f ↔ f.path = p := by
  unfold ofPath?
  constructor
  · intro h
    split at h
    · cases h; rfl
    · cases h
  · rintro rfl
    simp [f.namesSource]

end SourceFile

end Relay

import Relay.Proofs.Credential.FileStore

/-!
# What the file store asks of a disk

A store call that fails has no state to show, so it does not tell what it did to the disk before it
failed.  A `Script` does: it is a computation that asks a disk one thing after the other, and `run`
keeps the disk as the last access left it and the accesses in their order.

`FileStore.script` gives a script for each call, and `run_script` says that these are the calls of
`fileStore`: they answer alike on every disk, and leave the same disk when they are not refused.
-/

namespace Relay

namespace Files

/-- Something that is asked of a disk. -/
inductive Access where
  | probe (path : Path)
  | readText (path : Path)
  | makeDirectories (path : Path)
  | write (path : Path) (content : Bytes)
  deriving DecidableEq, Repr

/-- A computation that asks a disk and goes on with the answers. -/
inductive Script (α : Type) where
  | done (result : α)
  /-- Does the path lead to something? -/
  | probe (path : Path) (next : Bool → Script α)
  | readText (path : Path) (next : Except Failure String → Script α)
  | makeDirectories (path : Path) (next : Except Failure Unit → Script α)
  | write (path : Path) (content : Bytes) (next : Except Failure Unit → Script α)

/-- What a script came to: its result, the disk then, and what was asked of it, in order. -/
structure Visit (α : Type) where
  result : α
  disk : Disk
  asked : List Access

/-- The visit with an access in front. -/
def Visit.after {α : Type} (a : Access) (v : Visit α) : Visit α := { v with asked := a :: v.asked }

namespace Script

variable {α : Type}

/-- Carries a script out.  An access that fails leaves the disk as it is. -/
def run (d : Disk) : Script α → Visit α
  | done result => ⟨result, d, []⟩
  | probe path next => (run d (next (d.pathExists path))).after (.probe path)
  | readText path next => (run d (next (d.readText path))).after (.readText path)
  | makeDirectories path next =>
    match d.makeDirectories path with
    | .ok d' => (run d' (next (.ok ()))).after (.makeDirectories path)
    | .error e => (run d (next (.error e))).after (.makeDirectories path)
  | write path content next =>
    match d.write path content with
    | .ok d' => (run d' (next (.ok ()))).after (.write path content)
    | .error e => (run d (next (.error e))).after (.write path content)

end Script

end Files

open Files (Disk Failure Script Visit)

namespace FileStore

variable {α : Type}

/-- Reads the table in the file at a path. -/
def reading (path : Path) (next : Except StoreError Entries → Script α) : Script α :=
  .probe path fun there =>
    if there then
      .readText path fun
        | .ok content => next (readTable content)
        | .error e => next (.error (.io e))
    else next (.ok [])

/-- The answer to a change. -/
def finished : Except Failure Unit → StoreAnswer
  | .ok () => .done
  | .error e => .refused (.io e)

/-- Writes a table to the file at a path, in a directory that is there. -/
def putting (path : Path) (es : Entries) : Script StoreAnswer :=
  .write path (Utf8.encode (Json.table es)) fun r => .done (finished r)

/-- Writes a table to the file at a path, and makes its directory first if the path names one. -/
def writing (path : Path) (es : Entries) : Script StoreAnswer :=
  match path.parent? with
  | some dir =>
    if dir.bytes = [] then putting path es
    else
      .makeDirectories dir fun
        | .ok () => putting path es
        | .error e => .done (.refused (.io e))
  | none => putting path es

/-- What is done with the table that a call has read. -/
def working (path : Path) (c : StoreCall) : Except StoreError Entries → Script StoreAnswer
  | .error e => .done (.refused e)
  | .ok es =>
    match c with
    | .load name => .done (.loaded (es.get? name))
    | .save name value => writing path (es.set name value)
    | .remove name =>
      match es.get? name with
      | some _ => writing path (es.erase name)
      | none => .done .done

/-- A call of the store in the file at a path. -/
def script (path : Path) (c : StoreCall) : Script StoreAnswer := reading path (working path c)

/-- The visits of calls in their order, each on the disk that the one before it left. -/
def visits (path : Path) : Disk → List StoreCall → List (Visit StoreAnswer)
  | _, [] => []
  | d, c :: calls => (script path c).run d :: visits path ((script path c).run d).disk calls

/-! ## The scripts are the store's calls -/

/-- What is asked of a disk to read the table of a file. -/
def looked (path : Path) (d : Disk) : List Files.Access :=
  if d.pathExists path then [.probe path, .readText path] else [.probe path]

/-- Reading finds the table of the file and leaves the disk to what is done with it. -/
theorem run_reading (path : Path) (d : Disk) (next : Except StoreError Entries → Script α) :
    (reading path next).run d =
      { (next (entries path d)).run d with
        asked := looked path d ++ ((next (entries path d)).run d).asked } := by
  cases hthere : d.pathExists path with
  | false => simp [reading, Script.run, hthere, entries, looked, Visit.after]
  | true =>
      cases hread : d.readText path with
      | ok content => simp [reading, Script.run, hthere, hread, entries, looked, Visit.after]
      | error e => simp [reading, Script.run, hthere, hread, entries, looked, Visit.after]

/-- A visit has the answer of a call, and its disk unless it was refused. -/
def Matches (v : Visit StoreAnswer) (answered : StoreAnswer × Disk) : Prop :=
  v.result = answered.1 ∧ ((∀ e, answered.1 ≠ .refused e) → v.disk = answered.2)

/-- Once its directory is made, a table is put as `write` does. -/
theorem run_putting {path : Path} {d made : Disk} (hmade : withDirectory path d = .ok made)
    (es : Entries) : Matches ((putting path es).run made) (Store.settled d (write path d es)) := by
  cases hput : made.write path (Utf8.encode (Json.table es)) with
  | ok written =>
      have hwrite : write path d es = .ok written := by simp [write, hmade, Except.bind, hput]
      simp [putting, Script.run, hput, hwrite, Matches, Store.settled, Visit.after, finished]
  | error e =>
      have hwrite : write path d es = .error (.io e) := by simp [write, hmade, Except.bind, hput]
      simp [putting, Script.run, hput, hwrite, Matches, Store.settled, Visit.after, finished]

theorem run_writing (path : Path) (d : Disk) (es : Entries) :
    Matches ((writing path es).run d) (Store.settled d (write path d es)) := by
  cases hparent : path.parent? with
  | none =>
      rw [show writing path es = putting path es by rw [writing, hparent]]
      exact run_putting (by simp [withDirectory, hparent]) es
  | some dir =>
      by_cases hempty : dir.bytes = []
      · rw [show writing path es = putting path es by simp [writing, hparent, hempty]]
        exact run_putting (by simp [withDirectory, hparent, hempty]) es
      · have hdir : withDirectory path d = d.makeDirectories dir := by
          simp [withDirectory, hparent, hempty]
        cases hmake : d.makeDirectories dir with
        | ok made =>
            simpa [writing, hparent, hempty, Script.run, hmake, Visit.after, Matches] using
              run_putting (hdir.trans hmake) es
        | error e =>
            -- without its directory the file is not tried
            have hwrite : write path d es = .error (.io e) := by
              simp [write, hdir, hmake, Except.bind]
            simp [writing, hparent, hempty, Script.run, hmake, Visit.after, Matches, hwrite,
              Store.settled]

/-- A file whose table cannot be read refuses every call. -/
theorem refuses_of_entries {path : Path} {d : Disk} {e : StoreError}
    (h : entries path d = .error e) (name value : String) :
    (fileStore path).load d name = .error e ∧ (fileStore path).save d name value = .error e ∧
      (fileStore path).remove d name = .error e := by
  simp [fileStore, h, Except.map, Bind.bind, Except.bind]

theorem call_of_entries {path : Path} {d : Disk} {e : StoreError}
    (h : entries path d = .error e) (c : StoreCall) :
    (fileStore path).call d c = (.refused e, d) := by
  cases c with
  | load name => rw [Store.call, (refuses_of_entries h name "").1]
  | save name value =>
      rw [Store.call, (refuses_of_entries h name value).2.1]
      rfl
  | remove name =>
      rw [Store.call, (refuses_of_entries h name "").2.2]
      rfl

/-- Every call of the store is answered as by its script. -/
theorem run_script (path : Path) (d : Disk) (c : StoreCall) :
    Matches ((script path c).run d) ((fileStore path).call d c) := by
  suffices hworking : Matches ((working path c (entries path d)).run d)
      ((fileStore path).call d c) by
    rw [script, run_reading]
    exact hworking
  cases hentries : entries path d with
  | error e =>
      simp [working, Script.run, call_of_entries hentries, Matches]
  | ok es =>
      cases c with
      | load name =>
          simp [working, Script.run, Matches, Store.call, fileStore, hentries, Except.map]
      | save name value =>
          have hcall : (fileStore path).call d (.save name value) =
              Store.settled d (write path d (es.set name value)) := by
            simp [Store.call, fileStore, hentries, Bind.bind, Except.bind]
          rw [hcall]
          exact run_writing path d (es.set name value)
      | remove name =>
          cases hget : es.get? name with
          | none =>
              simp [working, hget, Script.run, Matches, Store.call, fileStore, hentries, Bind.bind,
                Except.bind, Store.settled]
          | some value =>
              have hcall : (fileStore path).call d (.remove name) =
                  Store.settled d (write path d (es.erase name)) := by
                simp [Store.call, fileStore, hentries, Bind.bind, Except.bind, hget]
              rw [hcall, working, hget]
              exact run_writing path d (es.erase name)

end FileStore

end Relay

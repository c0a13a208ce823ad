import Relay.Proofs.Files.Write
import Relay.Proofs.Json.Table

/-!
# The file store keeps a table

Each call of the file store reads the whole table from the file, and a call that changes it writes
the whole table back.  `fileStore_answers` says that over every sequence of calls the answers are
those of the store that keeps its table in memory, whatever names and texts they are about: the
file may be missing, blank or any JSON table at first, and of a name that it has twice the last
text counts.

`Mirrors` is the simulation.  The disk holds a table with distinct names that agrees with the one in
memory, and the path takes files.  What is written is read back, by `Json.decodeTable_table` for
the text and by `Disk.TakesFile.write` for the file.
-/

namespace Relay

open Files (Disk)

/-! ## Calls and answers -/

/-- A call of a store. -/
inductive StoreCall where
  | load (name : String)
  | save (name value : String)
  | remove (name : String)
  deriving DecidableEq, Repr

/-- What a store answers to a call. -/
inductive StoreAnswer where
  | loaded (value : Option String)
  | done
  | refused (error : StoreError)
  deriving DecidableEq, Repr

namespace Store

variable {σ : Type}

/-- The answer to a change, and the state afterwards; one that is refused changes nothing. -/
def settled (s : σ) : Except StoreError σ → StoreAnswer × σ
  | .ok s' => (.done, s')
  | .error e => (.refused e, s)

/-- The answer to a call, and the state afterwards. -/
def call (store : Store σ) (s : σ) : StoreCall → StoreAnswer × σ
  | .load name =>
    match store.load s name with
    | .ok value => (.loaded value, s)
    | .error e => (.refused e, s)
  | .save name value => settled s (store.save s name value)
  | .remove name => settled s (store.remove s name)

/-- The answers to calls in their order. -/
def answers (store : Store σ) : σ → List StoreCall → List StoreAnswer
  | _, [] => []
  | s, c :: calls => (store.call s c).1 :: answers store (store.call s c).2 calls

/-- The state after calls in their order. -/
def after (store : Store σ) (s : σ) (calls : List StoreCall) : σ :=
  calls.foldl (fun s c => (store.call s c).2) s

end Store

namespace FileStore

/-! ## The file -/

/-- What the file at a path holds before the first call: no file, a blank one, or a JSON table with
its members in order. -/
inductive Starts (path : Path) (d : Disk) : List (String × String) → Prop where
  | absent : d.pathExists path = false → Starts path d []
  | blank {text : String} : d.readText path = .ok text → Text.allBlank text = true →
      Starts path d []
  | table {text : String} {ms : List (String × String)} : d.readText path = .ok text →
      Json.TableText (Utf8.encode text) ms → Starts path d ms

/-- A table can be written to the path, and is there afterwards. -/
def Writable (path : Path) (d : Disk) : Prop :=
  ∃ d', write path d [] = .ok d' ∧ d'.readText path = .ok (Json.table [])

/-- The directory of the path can be made, and the path takes a file then. -/
def Ready (path : Path) (d : Disk) : Prop :=
  ∃ d', withDirectory path d = .ok d' ∧ d'.TakesFile path

theorem pathExists_of_read {path : Path} {d : Disk} {content : Bytes}
    (h : d.read path = .ok content) : d.pathExists path = true := by
  cases hstat : d.stat path with
  | ok found => simp [Disk.pathExists, hstat, Except.isOk, Except.toBool]
  | error e => simp [Disk.read, hstat] at h

theorem pathExists_of_readText {path : Path} {d : Disk} {text : String}
    (h : d.readText path = .ok text) : d.pathExists path = true := by
  cases hread : d.read path with
  | ok content => exact pathExists_of_read hread
  | error e => simp [Disk.readText, hread] at h

/-- A table is not blank, since it has a brace. -/
theorem allBlank_of_tableText {text : String} {ms : List (String × String)}
    (h : Json.TableText (Utf8.encode text) ms) : Text.allBlank text = false := by
  have hbrace : Bytes.ascii '{' ∈ Utf8.encode text := by
    generalize Utf8.encode text = bs at h
    cases h
    simp
  obtain ⟨c, hc, hnat⟩ := Utf8.exists_mem_of_mem_encode hbrace (by decide)
  obtain rfl : c = '{' := Char.toNat_inj.mp hnat
  rw [Text.allBlank, List.all_eq_false]
  exact ⟨_, hc, by decide⟩

theorem readTable_of_tableText {text : String} {ms : List (String × String)}
    (h : Json.TableText (Utf8.encode text) ms) : readTable text = .ok (Json.entered [] ms) := by
  have hdecode := Json.decodeTable_eq_ok_iff.mpr ⟨ms, h, rfl⟩
  simp [readTable, allBlank_of_tableText h, hdecode]

/-- The first call finds the members entered one after the other. -/
theorem entries_of_starts {path : Path} {d : Disk} {ms : List (String × String)}
    (h : Starts path d ms) : entries path d = .ok (Json.entered [] ms) := by
  cases h with
  | absent habsent =>
      rw [entries, if_neg (by simp [habsent])]
      rfl
  | blank hread hblank =>
      rw [entries, if_pos (pathExists_of_readText hread), hread]
      show readTable _ = _
      rw [readTable, if_pos hblank]
      rfl
  | table hread htable =>
      rw [entries, if_pos (pathExists_of_readText hread), hread]
      exact readTable_of_tableText htable

/-- A table that was written is read as it was. -/
theorem entries_of_readText {path : Path} {d : Disk} {es : Entries} (hdistinct : es.Distinct)
    (h : d.readText path = .ok (Json.table es)) : entries path d = .ok es := by
  have hblank := allBlank_of_tableText (Json.tableText_table es)
  rw [entries, if_pos (pathExists_of_readText h), h]
  simp [readTable, hblank, Json.decodeTable_table hdistinct]

theorem readText_of_walk {path : Path} {d : Disk} {l : Files.Location} {executable : Bool}
    {text : String}
    (h : d.tree.walk true d.cwd path = .ok (.found l (.file (Utf8.encode text) executable))) :
    d.readText path = .ok text := by
  have hread : d.read path = .ok (Utf8.encode text) := by simp only [Disk.read, Disk.stat, h]
  simp only [Disk.readText, hread, Utf8.decode?_encode, Option.elim]

/-- What takes a write without keeping it is no file that a table can be read from. -/
theorem takesFile_of_write {path : Path} {d d' : Disk} {content : Bytes} {text : String}
    (hwrite : d.write path content = .ok d') (hread : d'.readText path = .ok text)
    (hfull : text ≠ "") : d.TakesFile path := by
  have hdecode : Utf8.decode? [] = some "" := Utf8.decode?_encode ""
  cases hwalk : d.tree.walk true d.cwd path with
  | error e => simp [Disk.write, hwalk] at hwrite
  | ok place =>
      cases place with
      | free dir name closed =>
          cases closed with
          | false => exact .inr ⟨dir, name, hwalk⟩
          | true => simp [Disk.write, hwalk] at hwrite
      | found l e =>
          cases e with
          | file old executable => exact .inl ⟨l, old, executable, hwalk⟩
          | directory => simp [Disk.write, hwalk] at hwrite
          -- these take the write and keep nothing of it: they read as empty before and after
          | link | device | program =>
              obtain rfl : d = d' := by simpa [Disk.write, hwalk] using hwrite
              have hempty : d.readText path = .ok "" := by
                simp [Disk.readText, Disk.read, Disk.stat, hwalk, hdecode]
              exact absurd (Except.ok.inj (hread.symm.trans hempty)) hfull

theorem Writable.ready {path : Path} {d : Disk} (h : Writable path d) : Ready path d := by
  obtain ⟨d', hwrite, hread⟩ := h
  cases hdir : withDirectory path d with
  | error e => simp [write, hdir, Except.bind] at hwrite
  | ok made =>
      cases hmade : made.write path (Utf8.encode (Json.table [])) with
      | error e => simp [write, hdir, Except.bind, hmade] at hwrite
      | ok d'' =>
          obtain rfl : d'' = d' := by simpa [write, hdir, Except.bind, hmade] using hwrite
          exact ⟨made, hdir, takesFile_of_write hmade hread (by decide)⟩

/-- Every table can be written to a path that is ready, which then holds it and stays ready. -/
theorem Ready.write {path : Path} {d : Disk} (h : Ready path d) (es : Entries) :
    ∃ d', FileStore.write path d es = .ok d' ∧ d'.readText path = .ok (Json.table es) ∧
      Ready path d' := by
  obtain ⟨d₁, hdir, htakes⟩ := h
  obtain ⟨d', l, executable, hwrite, hwalk⟩ := htakes.write (Utf8.encode (Json.table es))
  refine ⟨d', ?_, readText_of_walk hwalk, d', Files.withDirectory_of_walk hwalk,
    .inl ⟨l, _, executable, hwalk⟩⟩
  simp only [FileStore.write, hdir, Except.bind, hwrite]

/-! ## The simulation -/

/-- The disk holds at a path what a table in memory holds, and takes what is written there. -/
structure Mirrors (path : Path) (d : Disk) (es : Entries) : Prop where
  ready : Ready path d
  held : ∃ held, entries path d = .ok held ∧ held.Distinct ∧ ∀ name, held.get? name = es.get? name

theorem mirrors_of_starts {path : Path} {d : Disk} {ms : List (String × String)} {es : Entries}
    (hstarts : Starts path d ms) (hwritable : Writable path d)
    (hsame : ∀ name, es.get? name = ms.reverse.lookup name) : Mirrors path d es := by
  refine ⟨hwritable.ready, Json.entered [] ms, entries_of_starts hstarts,
    Json.distinct_entered Entries.distinct_nil ms, fun name => ?_⟩
  rw [Json.get?_entered, hsame]
  exact Option.or_none

/-- Writing a table makes the disk mirror every table in memory that agrees with it. -/
theorem Mirrors.write {path : Path} {d : Disk} {es changed : Entries} {held : Entries}
    (h : Mirrors path d es) (hdistinct : held.Distinct)
    (hsame : ∀ name, held.get? name = changed.get? name) :
    ∃ d', FileStore.write path d held = .ok d' ∧ Mirrors path d' changed := by
  obtain ⟨d', hwrite, hread, hready⟩ := h.ready.write held
  exact ⟨d', hwrite, hready, held, entries_of_readText hdistinct hread, hdistinct, hsame⟩

theorem Mirrors.load {path : Path} {d : Disk} {es : Entries} (h : Mirrors path d es)
    (name : String) : (fileStore path).load d name = .ok (es.get? name) := by
  obtain ⟨held, hentries, -, hsame⟩ := h.held
  simp only [fileStore, hentries, Except.map, hsame]

theorem Mirrors.save {path : Path} {d : Disk} {es : Entries} (h : Mirrors path d es)
    (name value : String) :
    ∃ d', (fileStore path).save d name value = .ok d' ∧ Mirrors path d' (es.set name value) := by
  obtain ⟨held, hentries, hdistinct, hsame⟩ := h.held
  have hafter : ∀ other, (held.set name value).get? other = (es.set name value).get? other := by
    intro other
    by_cases hother : other = name
    · rw [hother, Entries.get?_set_self, Entries.get?_set_self]
    · rw [Entries.get?_set_of_ne hother, Entries.get?_set_of_ne hother, hsame]
  obtain ⟨d', hwrite, hmirrors⟩ := h.write (hdistinct.set name value) hafter
  refine ⟨d', ?_, hmirrors⟩
  simp only [fileStore, hentries]
  exact hwrite

theorem Mirrors.remove {path : Path} {d : Disk} {es : Entries} (h : Mirrors path d es)
    (name : String) :
    ∃ d', (fileStore path).remove d name = .ok d' ∧ Mirrors path d' (es.erase name) := by
  obtain ⟨held, hentries, hdistinct, hsame⟩ := h.held
  have hremove : (fileStore path).remove d name =
      if (held.get? name).isSome then FileStore.write path d (held.erase name) else .ok d := by
    simp only [fileStore, hentries, bind, Except.bind]
    cases held.get? name <;> rfl
  rw [hremove]
  split
  · refine h.write (hdistinct.erase name) fun other => ?_
    rw [Entries.get?_erase, Entries.get?_erase, hsame]
  · next hnone =>
    -- nothing is written, and the table in memory has no such name either
    refine ⟨d, rfl, h.ready, held, hentries, hdistinct, fun other => ?_⟩
    rw [Entries.get?_erase]
    split
    · next hother => simpa [hother] using hnone
    · exact hsame other

/-- One call is answered alike, and the disk mirrors the table in memory again afterwards. -/
theorem Mirrors.call {path : Path} {d : Disk} {es : Entries} (h : Mirrors path d es)
    (c : StoreCall) :
    ((fileStore path).call d c).1 = (memoryStore.call es c).1 ∧
      Mirrors path ((fileStore path).call d c).2 (memoryStore.call es c).2 := by
  cases c with
  | load name =>
      rw [Store.call, h.load]
      exact ⟨rfl, h⟩
  | save name value =>
      obtain ⟨d', hsave, hsaved⟩ := h.save name value
      rw [Store.call, hsave]
      exact ⟨rfl, hsaved⟩
  | remove name =>
      obtain ⟨d', hremove, hremoved⟩ := h.remove name
      rw [Store.call, hremove]
      exact ⟨rfl, hremoved⟩

/-- Calls in their order are answered alike. -/
theorem Mirrors.answers {path : Path} {d : Disk} {es : Entries} (h : Mirrors path d es)
    (calls : List StoreCall) :
    (fileStore path).answers d calls = memoryStore.answers es calls := by
  induction calls generalizing d es with
  | nil => rfl
  | cons c calls ih =>
      obtain ⟨hanswer, hafter⟩ := h.call c
      rw [Store.answers, Store.answers, hanswer, ih hafter]

theorem Mirrors.after {path : Path} {d : Disk} {es : Entries} (h : Mirrors path d es)
    (calls : List StoreCall) :
    Mirrors path ((fileStore path).after d calls) (memoryStore.after es calls) := by
  induction calls generalizing d es with
  | nil => exact h
  | cons c calls ih => exact ih (h.call c).2

end FileStore

/-- A file store answers every sequence of calls as the store in memory does that starts with the
same texts, where the last member of a name counts.  So a text that is saved, whatever came before,
is loaded again, and what is loaded for other names is as it was. -/
theorem fileStore_answers (path : Path) (d : Disk) (ms : List (String × String)) (es : Entries)
    (hstarts : FileStore.Starts path d ms) (hwritable : FileStore.Writable path d)
    (hsame : ∀ name, es.get? name = ms.reverse.lookup name) (calls : List StoreCall) :
    (fileStore path).answers d calls = memoryStore.answers es calls ∧
      let now := (fileStore path).after d calls
      ∀ name value, ∃ d', (fileStore path).save now name value = .ok d' ∧
        (fileStore path).load d' name = .ok (some value) ∧
        ∀ other, other ≠ name →
          (fileStore path).load d' other = (fileStore path).load now other := by
  have hmirrors := FileStore.mirrors_of_starts hstarts hwritable hsame
  refine ⟨hmirrors.answers calls, fun name value => ?_⟩
  have hnow := hmirrors.after calls
  obtain ⟨d', hsave, hsaved⟩ := hnow.save name value
  refine ⟨d', hsave, ?_, ?_⟩
  · rw [hsaved.load, Entries.get?_set_self]
  · intro other hother
    rw [hsaved.load, hnow.load, Entries.get?_set_of_ne hother]

/-- In a file that has a name twice the second text is found, until it is removed. -/
theorem fileStore_answers_repeated :
    let path : Path := .ofString "k"
    let content := Utf8.encode (Json.table [("a", "x"), ("a", "y")])
    (fileStore path).answers ⟨⟨[([path.bytes], .file content false)]⟩, []⟩
        [.load "a", .remove "a", .load "a", .save "b" "\"", .load "b"] =
      [.loaded (some "y"), .done, .loaded none, .done, .loaded (some "\"")] := by
  intro path content
  let d : Disk := ⟨⟨[([path.bytes], .file content false)]⟩, []⟩
  have hwalk : d.tree.walk true d.cwd path = .ok (.found [path.bytes] (.file content false)) :=
    Files.Tree.walk_eq_ok_iff.mpr ⟨by decide,
      .enter rfl ⟨by decide, by decide, by decide⟩ rfl nofun (.stop rfl nofun)⟩
  have hready : FileStore.Ready path d :=
    ⟨d, Files.withDirectory_of_walk hwalk, .inl ⟨_, _, _, hwalk⟩⟩
  obtain ⟨d', hwrite, hread, -⟩ := hready.write []
  exact (fileStore_answers path d [("a", "x"), ("a", "y")] (Json.entered [] _)
    (.table (FileStore.readText_of_walk hwalk) (Json.tableText_table _)) ⟨d', hwrite, hread⟩
    (fun name => (Json.get?_entered name [] _).trans Option.or_none) _).1

end Relay

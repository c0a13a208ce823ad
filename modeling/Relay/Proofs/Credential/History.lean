import Mathlib.Data.List.Induction
import Mathlib.Logic.Function.Basic
import Relay.Credential.Basic
import Relay.Proofs.Credential.FileStore

/-!
# The history of a key

The key in use and the key in the store drift apart: a value can be for the session only, and a
store can refuse the call that would save it.  Loading the key again brings them together.  The
store here is one that any call can find refusing, so every moment of a history has a store of its
own, and all that is asked of it is `Store.Keeps`: what it takes, it keeps like a table.

What happened is noted down from the answers.  `slot` and `value` read the two keys off the notes
alone, and `key_follows_history` says that these are the keys that there are.
-/

namespace Relay

open Files (Disk)

/-! ## Stores that keep a table -/

/-- The disk holds texts by name at a path, as some table in memory does. -/
def FileStore.Holds (path : Path) (d : Disk) (t : String → Option String) : Prop :=
  ∃ es, Mirrors path d es ∧ ∀ name, es.get? name = t name

namespace Store

variable {σ : Type}

/-- The calls of a store that succeed are those of a table, where `holds s t` says that the state
`s` holds the texts `t`.  Nothing is asked of a call that fails: it leaves no state. -/
structure Keeps (store : Store σ) (holds : σ → (String → Option String) → Prop) : Prop where
  load {s : σ} {t : String → Option String} {name : String} {text : Option String} :
    holds s t → store.load s name = .ok text → text = t name
  save {s s' : σ} {t : String → Option String} {name text : String} :
    holds s t → store.save s name text = .ok s' → holds s' (Function.update t name (some text))
  remove {s s' : σ} {t : String → Option String} {name : String} :
    holds s t → store.remove s name = .ok s' → holds s' (Function.update t name none)

/-- Two stores answer alike to calls about a name. -/
structure AgreesAt (name : String) (store store' : Store σ) : Prop where
  load : ∀ s, store.load s name = store'.load s name
  save : ∀ s text, store.save s name text = store'.save s name text
  remove : ∀ s, store.remove s name = store'.remove s name

theorem keeps_refusing (e : StoreError) (holds : σ → (String → Option String) → Prop) :
    (refusing e : Store σ).Keeps holds :=
  ⟨nofun, nofun, nofun⟩

theorem keeps_memoryStore : memoryStore.Keeps fun es t => ∀ name, es.get? name = t name := by
  refine ⟨?_, ?_, ?_⟩
  · intro es t name text hes hload
    rw [← hes name]
    exact (Except.ok.inj hload).symm
  · intro es es' t name text hes hsave other
    obtain rfl : es.set name text = es' := Except.ok.inj hsave
    by_cases hother : other = name
    · rw [hother, Entries.get?_set_self, Function.update_self]
    · rw [Entries.get?_set_of_ne hother, Function.update_of_ne hother, hes]
  · intro es es' t name hes hremove other
    obtain rfl : es.erase name = es' := Except.ok.inj hremove
    rw [Entries.get?_erase, Function.update_apply, hes]

/-- A file store keeps what the table in memory that it mirrors keeps. -/
theorem keeps_fileStore (path : Path) : (fileStore path).Keeps (FileStore.Holds path) := by
  refine ⟨?_, ?_, ?_⟩
  · rintro d t name text ⟨es, hmirrors, hes⟩ hload
    rw [hmirrors.load] at hload
    exact keeps_memoryStore.load hes hload
  · rintro d d' t name text ⟨es, hmirrors, hes⟩ hsave
    obtain ⟨saved, hsaved, hafter⟩ := hmirrors.save name text
    obtain rfl : saved = d' := Except.ok.inj (hsaved.symm.trans hsave)
    exact ⟨_, hafter, keeps_memoryStore.save hes rfl⟩
  · rintro d d' t name ⟨es, hmirrors, hes⟩ hremove
    obtain ⟨removed, hremoved, hafter⟩ := hmirrors.remove name
    obtain rfl : removed = d' := Except.ok.inj (hremoved.symm.trans hremove)
    exact ⟨_, hafter, keeps_memoryStore.remove hes rfl⟩

end Store

/-! ## Histories -/

/-- What can be done about a key. -/
inductive KeyAction where
  | set (value : String)
  | setForSession (value : String)
  | reload
  deriving DecidableEq, Repr

/-- Something done about a key, and the store as it is at that moment. -/
structure KeyMoment (σ : Type) where
  action : KeyAction
  store : Store σ

/-- The same is done with two stores that answer alike about the slot; for a value for the session
the stores can be any. -/
inductive KeyMoment.Alike {σ : Type} : KeyMoment σ → KeyMoment σ → Prop where
  | forSession (value : String) (store store' : Store σ) :
      Alike ⟨.setForSession value, store⟩ ⟨.setForSession value, store'⟩
  | atSlot (action : KeyAction) {store store' : Store σ} :
      store.AgreesAt keySlot store' → Alike ⟨action, store⟩ ⟨action, store'⟩

/-- What happened to a key. -/
inductive KeyNote where
  /-- A value was set and the store took it. -/
  | stored (value : String)
  /-- A value was set and the store refused it. -/
  | refused (value : String)
  | forSession (value : String)
  /-- The store told what it holds. -/
  | loaded
  /-- The store could not tell. -/
  | unreadable
  deriving DecidableEq, Repr

namespace KeyNote

/-- The value that the store took. -/
def stored? : KeyNote → Option String
  | stored value => some value
  | _ => none

/-- What is in the slot after all notes, where `first` was: the value that the store took last, and
nothing if that value is empty. -/
def slot (first : Option String) (notes : List KeyNote) : Option String :=
  (notes.filterMap stored?).getLast?.elim first fun value =>
    if value = "" then none else some value

/-- The key in use after a note that follows `past`, where `first` was in the slot. -/
def value (first : Option String) (past : List KeyNote) : KeyNote → String
  | stored value | refused value | forSession value => value
  | loaded => (slot first past).getD ""
  | unreadable => ""

theorem slot_append_one (first : Option String) (notes : List KeyNote) (note : KeyNote) :
    slot first (notes ++ [note]) =
      note.stored?.elim (slot first notes) fun value =>
        if value = "" then none else some value := by
  cases h : note.stored? with
  | none => simp [slot, h]
  | some v => simp [slot, h]

end KeyNote

namespace Credential

variable {σ : Type}

/-- The key after something was done about it, and the answer. -/
def act (c : Credential σ) (m : KeyMoment σ) : Credential σ × Except StoreError Unit :=
  match m.action with
  | .set value => c.set m.store value
  | .setForSession value => (c.setForSession value, .ok ())
  | .reload => (.load m.store c.state, .ok ())

/-- What is noted down when something is done about the key. -/
def note (c : Credential σ) (m : KeyMoment σ) : KeyNote :=
  match m.action with
  | .set value => if (c.act m).2.isOk then .stored value else .refused value
  | .setForSession value => .forSession value
  | .reload => if (m.store.load c.state keySlot).isOk then .loaded else .unreadable

/-- The key after a history. -/
def after (c : Credential σ) (history : List (KeyMoment σ)) : Credential σ :=
  history.foldl (fun c m => (c.act m).1) c

/-- The notes on a history, oldest first. -/
def notes : Credential σ → List (KeyMoment σ) → List KeyNote
  | _, [] => []
  | c, m :: history => c.note m :: notes (c.act m).1 history

theorem after_append_one (c : Credential σ) (history : List (KeyMoment σ)) (m : KeyMoment σ) :
    c.after (history ++ [m]) = ((c.after history).act m).1 := by
  simp [after]

theorem notes_append_one (c : Credential σ) (history : List (KeyMoment σ)) (m : KeyMoment σ) :
    c.notes (history ++ [m]) = c.notes history ++ [(c.after history).note m] := by
  induction history generalizing c with
  | nil => rfl
  | cons first history ih =>
      show c.note first :: notes (c.act first).1 (history ++ [m]) = _
      rw [ih]
      rfl

/-! ## One moment -/

/-- The call by which the store is told of a value. -/
def told (store : Store σ) (s : σ) (value : String) : Except StoreError σ :=
  if value = "" then store.remove s keySlot else store.save s keySlot value

/-- Setting a value answers as the store does, and takes the value in any case. -/
theorem set_cases (store : Store σ) (c : Credential σ) (value : String) :
    (∃ s, told store c.state value = .ok s ∧ c.set store value = (⟨value, s⟩, .ok ())) ∨
      ∃ e, told store c.state value = .error e ∧
        c.set store value = (⟨value, c.state⟩, .error e) := by
  cases h : told store c.state value with
  | ok s =>
      refine .inl ⟨s, rfl, ?_⟩
      unfold told at h
      simp only [set, h]
  | error e =>
      refine .inr ⟨e, rfl, ?_⟩
      unfold told at h
      simp only [set, h]

theorem note_eq_stored_iff {c : Credential σ} {m : KeyMoment σ} {value : String}
    (haction : m.action = .set value) :
    c.note m = .stored value ↔ ∃ s, told m.store c.state value = .ok s := by
  simp only [note, act, haction]
  rcases set_cases m.store c value with ⟨s, htold, hset⟩ | ⟨e, htold, hset⟩
  · simp [hset, htold, Except.isOk, Except.toBool]
  · simp [hset, htold, Except.isOk, Except.toBool]

section Holds

variable {holds : σ → (String → Option String) → Prop} {table : String → Option String}
  {c : Credential σ} {history : List (KeyMoment σ)}

/-- What the store takes is in the slot, unless it is empty; all other names are as they were. -/
theorem holds_of_told {store : Store σ} (hkeeps : store.Keeps holds) {s s' : σ}
    {t : String → Option String} (hs : holds s t) {value : String}
    (h : told store s value = .ok s') :
    holds s' (Function.update t keySlot (if value = "" then none else some value)) := by
  unfold told at h
  split at h
  · next hempty =>
    rw [if_pos hempty]
    exact hkeeps.remove hs h
  · next hfull =>
    rw [if_neg hfull]
    exact hkeeps.save hs h

/-- Whatever is done, the slot and the key in use are then as the note on it says. -/
theorem holds_act {first : Option String} {past : List KeyNote}
    (h : holds c.state (Function.update table keySlot (KeyNote.slot first past)))
    {m : KeyMoment σ} (hkeeps : m.store.Keeps holds) :
    holds (c.act m).1.state
        (Function.update table keySlot (KeyNote.slot first (past ++ [c.note m]))) ∧
      (c.act m).1.value = KeyNote.value first past (c.note m) := by
  rw [KeyNote.slot_append_one]
  obtain ⟨action, store⟩ := m
  cases action with
  | set value =>
      rcases set_cases store c value with ⟨s, htold, hset⟩ | ⟨e, htold, hset⟩
      · have hnote : c.note ⟨.set value, store⟩ = .stored value := by
          simp [note, Credential.act, hset, Except.isOk, Except.toBool]
        have hafter := holds_of_told hkeeps h htold
        rw [Function.update_idem] at hafter
        rw [hnote]
        simp only [Credential.act, hset]
        exact ⟨hafter, rfl⟩
      · -- the value is in use all the same, and the slot keeps what it has
        have hnote : c.note ⟨.set value, store⟩ = .refused value := by
          simp [note, Credential.act, hset, Except.isOk, Except.toBool]
        rw [hnote]
        simp only [Credential.act, hset]
        exact ⟨h, rfl⟩
  | setForSession value => exact ⟨h, rfl⟩
  | reload =>
      cases hload : store.load c.state keySlot with
      | ok text =>
          have hnote : c.note ⟨.reload, store⟩ = .loaded := by
            simp [note, hload, Except.isOk, Except.toBool]
          have htext : text = KeyNote.slot first past := by
            rw [hkeeps.load h hload, Function.update_self]
          rw [hnote]
          simp only [Credential.act, load, hload, htext]
          exact ⟨h, rfl⟩
      | error e =>
          have hnote : c.note ⟨.reload, store⟩ = .unreadable := by
            simp [note, hload, Except.isOk, Except.toBool]
          rw [hnote]
          simp only [Credential.act, load, hload]
          exact ⟨h, rfl⟩

/-! ## Whole histories -/

/-- After every history the slot is as the notes say. -/
theorem holds_after (hc : holds c.state table) (hkeeps : ∀ m ∈ history, m.store.Keeps holds) :
    holds (c.after history).state
      (Function.update table keySlot (KeyNote.slot (table keySlot) (c.notes history))) := by
  induction history using List.reverseRecOn with
  | nil =>
      show holds c.state (Function.update table keySlot (table keySlot))
      rw [Function.update_eq_self]
      exact hc
  | append_singleton history m ih =>
      have hbefore := ih fun x hx => hkeeps x (List.mem_append_left _ hx)
      rw [after_append_one, notes_append_one]
      exact (holds_act hbefore (hkeeps m (by simp))).1

/-- The last note tells the key in use. -/
theorem value_after (hc : holds c.state table) (hkeeps : ∀ m ∈ history, m.store.Keeps holds)
    {past : List KeyNote} {last : KeyNote} (hnotes : c.notes history = past ++ [last]) :
    (c.after history).value = KeyNote.value (table keySlot) past last := by
  cases history using List.reverseRecOn with
  | nil => cases past <;> cases hnotes
  | append_singleton before m =>
      rw [notes_append_one] at hnotes
      obtain ⟨rfl, hlast⟩ := List.append_inj' hnotes rfl
      obtain rfl := List.head_eq_of_cons_eq hlast
      have hbefore := holds_after hc fun x hx => hkeeps x (List.mem_append_left _ hx)
      rw [after_append_one]
      exact (holds_act hbefore (hkeeps m (by simp))).2

end Holds

/-- Moments that are alike come to the same. -/
theorem act_of_alike {m m' : KeyMoment σ} (h : m.Alike m') (c : Credential σ) :
    c.act m = c.act m' ∧ c.note m = c.note m' := by
  cases h with
  | forSession value store store' => exact ⟨rfl, rfl⟩
  | atSlot action hagree =>
      cases action with
      | set value => simp only [note, act, set, hagree.save, hagree.remove, and_self]
      | setForSession value => exact ⟨rfl, rfl⟩
      | reload => simp only [note, act, load, hagree.load, and_self]

theorem after_of_alike {history history' : List (KeyMoment σ)}
    (h : List.Forall₂ KeyMoment.Alike history history') (c : Credential σ) :
    c.after history = c.after history' ∧ c.notes history = c.notes history' := by
  induction h generalizing c with
  | nil => exact ⟨rfl, rfl⟩
  | @cons m m' history history' hm _ ih =>
      obtain ⟨hact, hnote⟩ := act_of_alike hm c
      obtain ⟨hafter, hnotes⟩ := ih (c.act m').1
      show (c.act m).1.after history = _ ∧ c.note m :: (c.act m).1.notes history = _
      rw [hact, hnote, hafter, hnotes]
      exact ⟨rfl, rfl⟩

end Credential

/-- After every history of a key over stores that keep a table, where any call can be refused: the
slot holds the value that the store took last, or nothing if that is empty, and what it held at
first if the store took none; every other name has the text that it had.  The key in use is the
value set last, whether or not the store took it, or what the slot held when it was loaded last,
which is empty if there was nothing or the store could not tell.  A value counts as taken exactly
when the store took the call for it.  A value for the session leaves the store as it is and asks it
nothing, and nothing depends on how a store answers about other names.  The store in memory keeps a
table, and so does the store in a file that is missing, blank or a table and can be written. -/
theorem key_follows_history {σ : Type} (holds : σ → (String → Option String) → Prop)
    (table : String → Option String) (c : Credential σ) (hc : holds c.state table)
    (history : List (KeyMoment σ)) (hkeeps : ∀ m ∈ history, m.store.Keeps holds) :
    holds (c.after history).state
        (Function.update table keySlot (KeyNote.slot (table keySlot) (c.notes history))) ∧
      (∀ past last, c.notes history = past ++ [last] →
        (c.after history).value = KeyNote.value (table keySlot) past last) ∧
      (∀ before m value, before ++ [m] <+: history → m.action = .set value →
        ((c.after before).note m = .stored value ↔
          ∃ s, (if value = "" then m.store.remove (c.after before).state keySlot
            else m.store.save (c.after before).state keySlot value) = .ok s)) ∧
      (∀ before m value, before ++ [m] <+: history → m.action = .setForSession value →
        (c.after (before ++ [m])).state = (c.after before).state) ∧
      (∀ history', List.Forall₂ KeyMoment.Alike history history' →
        c.after history = c.after history' ∧ c.notes history = c.notes history') ∧
      memoryStore.Keeps (fun es t => ∀ name, es.get? name = t name) ∧
      ∀ path, (fileStore path).Keeps (FileStore.Holds path) ∧
        ∀ d ms, FileStore.Starts path d ms → FileStore.Writable path d →
          FileStore.Holds path d fun name => ms.reverse.lookup name := by
  refine ⟨Credential.holds_after hc hkeeps, ?_, ?_, ?_, fun _ h => Credential.after_of_alike h c,
    Store.keeps_memoryStore, fun path => ⟨Store.keeps_fileStore path, ?_⟩⟩
  · intro past last hnotes
    exact Credential.value_after hc hkeeps hnotes
  · intro before m value _ haction
    exact Credential.note_eq_stored_iff haction
  · intro before m value _ haction
    rw [Credential.after_append_one, Credential.act, haction]
    rfl
  · intro d ms hstarts hwritable
    have hentered : ∀ name, (Json.entered [] ms).get? name = ms.reverse.lookup name :=
      fun name => (Json.get?_entered name [] ms).trans Option.or_none
    exact ⟨_, FileStore.mirrors_of_starts hstarts hwritable hentered, hentered⟩

/-- A key is stored, the next one is refused by the store, and one more is for the session; loading
brings the first one back. -/
theorem key_follows_history_refused :
    let refusing : Store Entries := .refusing (.io (.system .permission))
    let history : List (KeyMoment Entries) := [⟨.set "a", memoryStore⟩, ⟨.set "b", refusing⟩,
      ⟨.setForSession "c", memoryStore⟩, ⟨.reload, memoryStore⟩]
    let c : Credential Entries := ⟨"", [("other", "kept")]⟩
    c.notes history = [.stored "a", .refused "b", .forSession "c", .loaded] ∧
      (c.after history).value = "a" ∧ (c.after history).state.get? keySlot = some "a" ∧
      (c.after history).state.get? "other" = some "kept" := by
  intro refusing history c
  have hkeeps : ∀ m ∈ history,
      m.store.Keeps fun es t => ∀ name, Entries.get? name es = t name := by
    simp only [history, List.forall_mem_cons]
    exact ⟨Store.keeps_memoryStore, Store.keeps_refusing _ _, Store.keeps_memoryStore,
      Store.keeps_memoryStore, by simp⟩
  have hnotes : c.notes history = [.stored "a", .refused "b", .forSession "c", .loaded] := by
    decide +kernel
  obtain ⟨hslot, hvalue, -⟩ :=
    key_follows_history _ (fun name => c.state.get? name) c (fun _ => rfl) history hkeeps
  refine ⟨hnotes, ?_, ?_, ?_⟩
  · exact hvalue [.stored "a", .refused "b", .forSession "c"] .loaded hnotes
  · rw [hslot, hnotes, Function.update_self]
    decide +kernel
  · rw [hslot, Function.update_of_ne (by decide +kernel)]
    decide +kernel

end Relay

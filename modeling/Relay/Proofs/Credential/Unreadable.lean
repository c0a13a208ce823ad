import Relay.Proofs.Credential.History
import Relay.Proofs.Credential.Script

/-!
# Files that hold no table

A file can hold something else than a table: octets that are no text, or a text that is neither
blank nor a JSON object of texts.  `unreadable_table_kept` says what the file store and a key over
it do then: every call is refused, and no call comes as far as a write, so the file stays as it is;
the key starts empty, and follows what is set.
-/

namespace Relay

open Files (Disk)

namespace FileStore

/-- The content of a file that is no text, or a text that is neither blank nor a table. -/
inductive HoldsNoTable (content : Bytes) : Prop where
  | notText : Utf8.decode? content = none → HoldsNoTable content
  | noTable {text : String} : Utf8.decode? content = some text → Text.allBlank text = false →
      (∀ ms, ¬Json.TableText (Utf8.encode text) ms) → HoldsNoTable content

/-- The error that tells what is wrong with the content of a file. -/
inductive RefusedAs (content : Bytes) : StoreError → Prop where
  | notText : Utf8.decode? content = none → RefusedAs content (.io .notText)
  | noTable {text : String} {fault : Json.Fault} : Utf8.decode? content = some text →
      Json.decodeTable (Utf8.encode text) = .error fault → RefusedAs content (.json fault)

variable {path : Path} {d : Disk} {content : Bytes} {e : StoreError}

/-- A file that holds no table is refused with the error that fits it. -/
theorem HoldsNoTable.entries (h : HoldsNoTable content) (hread : d.read path = .ok content) :
    ∃ e, RefusedAs content e ∧ FileStore.entries path d = .error e := by
  have hthere := pathExists_of_read hread
  cases h with
  | notText hdecode =>
      refine ⟨_, .notText hdecode, ?_⟩
      simp [FileStore.entries, hthere, Disk.readText, hread, hdecode]
  | @noTable text hdecode hblank hnone =>
      cases htable : Json.decodeTable (Utf8.encode text) with
      | ok es =>
          -- what is read as a table is one by the grammar
          obtain ⟨ms, hms, -⟩ := Json.decodeTable_eq_ok_iff.mp htable
          exact absurd hms (hnone ms)
      | error fault =>
          refine ⟨_, .noTable hdecode htable, ?_⟩
          simp [FileStore.entries, hthere, Disk.readText, hread, hdecode, readTable, hblank, htable]

/-- A call on a file whose table cannot be read ends after reading. -/
theorem run_script_of_entries (hthere : d.pathExists path = true)
    (h : FileStore.entries path d = .error e) (c : StoreCall) :
    (script path c).run d = ⟨.refused e, d, [.probe path, .readText path]⟩ := by
  rw [script, run_reading, h]
  simp [working, Files.Script.run, looked, hthere]

/-- And so does every call after it. -/
theorem visits_of_entries (hthere : d.pathExists path = true)
    (h : FileStore.entries path d = .error e) (calls : List StoreCall) :
    visits path d calls =
      calls.map fun _ => ⟨.refused e, d, [.probe path, .readText path]⟩ := by
  induction calls with
  | nil => rfl
  | cons c calls ih =>
      -- the first call leaves the disk as it found it, so the others meet the same file
      rw [visits, run_script_of_entries hthere h, ih, List.map_cons]

end FileStore

namespace Credential

variable {σ : Type}

/-- The call that a store gets when a value is set. -/
def slotCall (value : String) : StoreCall :=
  if value = "" then .remove keySlot else .save keySlot value

/-- The answers to what is done about a key, in order. -/
def replies : Credential σ → List (KeyMoment σ) → List (Except StoreError Unit)
  | _, [] => []
  | c, m :: history => (c.act m).2 :: replies (c.act m).1 history

/-- Values set one after the other. -/
def sets (store : Store σ) (values : List String) : List (KeyMoment σ) :=
  values.map fun value => ⟨.set value, store⟩

theorem call_slotCall (store : Store σ) (s : σ) (value : String) :
    store.call s (slotCall value) = Store.settled s (told store s value) := by
  rw [slotCall, told]
  split <;> rfl

section Refused

variable {store : Store σ} {s : σ} {e : StoreError}

/-- Setting a value makes one call, so over a store that refuses it the value is taken only. -/
theorem act_set_of_refused (h : ∀ c, store.call s c = (.refused e, s)) (before value : String) :
    (Credential.mk before s).act ⟨.set value, store⟩ = (⟨value, s⟩, .error e) := by
  have hcall := (call_slotCall store s value).symm.trans (h (slotCall value))
  rcases set_cases store ⟨before, s⟩ value with ⟨s', htold, -⟩ | ⟨e', htold, hset⟩
  · rw [htold] at hcall
    cases hcall
  · rw [htold] at hcall
    cases hcall
    exact hset

/-- Over a store that refuses every call the key is the value set last, and the state stays. -/
theorem after_sets_of_refused (h : ∀ c, store.call s c = (.refused e, s)) (before : String)
    (values : List String) :
    (Credential.mk before s).after (sets store values) = ⟨values.getLast?.getD before, s⟩ := by
  induction values generalizing before with
  | nil => rfl
  | cons value values ih =>
      have hstep : (Credential.mk before s).after (sets store (value :: values)) =
          ((Credential.mk before s).act ⟨.set value, store⟩).1.after (sets store values) := rfl
      rw [hstep, act_set_of_refused h, ih, List.getLast?_cons, Option.getD_some]

theorem replies_sets_of_refused (h : ∀ c, store.call s c = (.refused e, s)) (before : String)
    (values : List String) :
    (Credential.mk before s).replies (sets store values) = values.map fun _ => .error e := by
  induction values generalizing before with
  | nil => rfl
  | cons value values ih =>
      rw [sets, List.map_cons, replies, act_set_of_refused h, List.map_cons]
      exact congrArg _ (ih value)

end Refused

end Credential

/-- A file that holds no table stays as it is under every sequence of calls: each is refused with
one error after the file was looked at and read, and asks nothing else of the disk.  A key loaded
from it is empty.  Setting values is refused each time too, and the key is the last of them. -/
theorem unreadable_table_kept (path : Path) (d : Disk) (content : Bytes)
    (hread : d.read path = .ok content) (hnone : FileStore.HoldsNoTable content) :
    ∃ e, FileStore.RefusedAs content e ∧
      (∀ name value, (fileStore path).load d name = .error e ∧
        (fileStore path).save d name value = .error e ∧
        (fileStore path).remove d name = .error e) ∧
      (∀ d' c, FileStore.Matches ((FileStore.script path c).run d') ((fileStore path).call d' c)) ∧
      (∀ calls, FileStore.visits path d calls =
        calls.map fun _ => ⟨.refused e, d, [.probe path, .readText path]⟩) ∧
      Credential.load (fileStore path) d = ⟨"", d⟩ ∧
      ∀ before values,
        let history := Credential.sets (fileStore path) values
        (Credential.mk before d).after history = ⟨values.getLast?.getD before, d⟩ ∧
          (Credential.mk before d).replies history = values.map fun _ => .error e := by
  obtain ⟨e, hrefused, hentries⟩ := hnone.entries hread
  have hcalls := FileStore.refuses_of_entries hentries
  have hrefuses := FileStore.call_of_entries hentries
  refine ⟨e, hrefused, hcalls, FileStore.run_script path,
    FileStore.visits_of_entries (FileStore.pathExists_of_read hread) hentries, ?_,
    fun before values => ⟨Credential.after_sets_of_refused hrefuses before values,
      Credential.replies_sets_of_refused hrefuses before values⟩⟩
  rw [Credential.load, (hcalls keySlot "").1]

/-- A table that is cut off after a member with a number for a value is kept, and so is the key
that is set after an empty one. -/
theorem unreadable_table_kept_cut :
    let path : Path := .ofString "k"
    let content := Utf8.encode "\x7b\"jatti.apiKey\": 1"
    let d : Disk := ⟨⟨[([path.bytes], .file content false)]⟩, []⟩
    d.read path = .ok content ∧ FileStore.HoldsNoTable content ∧
      (FileStore.visits path d [.load "a", .save "a" "x", .remove "jatti.apiKey"]).map (·.disk) =
        [d, d, d] ∧
      (Credential.load (fileStore path) d).after
          (Credential.sets (fileStore path) ["x", "", "y"]) = ⟨"y", d⟩ := by
  intro path content d
  have hwalk : d.tree.walk true d.cwd path = .ok (.found [path.bytes] (.file content false)) :=
    Files.Tree.walk_eq_ok_iff.mpr ⟨by decide,
      .enter rfl ⟨by decide, by decide, by decide⟩ rfl nofun (.stop rfl nofun)⟩
  have hread : d.read path = .ok content := by simp only [Disk.read, Disk.stat, hwalk]
  have hnone : FileStore.HoldsNoTable content := by
    refine .noTable (Utf8.decode?_encode _) (by decide) fun ms hms => ?_
    have hdecode := Json.decodeTable_eq_ok_iff.mpr ⟨ms, hms, rfl⟩
    have hfault : (Json.decodeTable content).toOption = none := by decide +kernel
    rw [hdecode] at hfault
    cases hfault
  obtain ⟨e, -, -, -, hvisits, hload, hsets⟩ := unreadable_table_kept path d content hread hnone
  refine ⟨hread, hnone, ?_, ?_⟩
  · rw [hvisits]
    rfl
  · rw [hload]
    exact (hsets "" ["x", "", "y"]).1

end Relay

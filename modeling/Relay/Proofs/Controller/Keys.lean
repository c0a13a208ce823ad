import Relay.Playground.Invoke
import Relay.Proofs.Controller.Exclusion
import Relay.Proofs.Text.Blank

/-!
# Which key goes with a run

A run of typed code takes the key along when it is asked for, and can wait for long while the user
enters other keys.  The key in force at a moment is the one set last before it (`keyInForce`), and a
run goes with the one that was in force when it was asked for, trimmed, or with none if it is blank.

The request is written into the log once, when the run is accepted.  What is handed to the executor
later is that request (`Written.accepted_of_invoke`), and the remote executor sends the key of the
request and no other (`invokeRemote_congr`).
-/

namespace Relay

/-! ## The key in force -/

/-- The key that a step puts in force. -/
def Step.key? : Step → Option String
  | .setCredential value => some value
  | _ => none

/-- The key in force after steps, where `first` was: the one set last. -/
def keyInForce (first : String) (steps : List Step) : String :=
  (steps.filterMap Step.key?).getLast?.getD first

theorem keyInForce_append_one (first : String) (steps : List Step) (s : Step) :
    keyInForce first (steps ++ [s]) = s.key?.getD (keyInForce first steps) := by
  cases h : s.key? with
  | none => simp [keyInForce, h]
  | some value => simp [keyInForce, h]

namespace Controller

variable {σ : Type}

theorem credential_await (c : Controller σ) (r : Request) (report : Option Report) :
    (c.await r report).1.credential = c.credential := by
  cases report <;> rfl

theorem credential_advance (c : Controller σ) (run : Run) (report : Option Report) :
    (c.advance run report).1.credential = c.credential := by
  cases run with
  | ignored => rfl
  | accepted r => exact credential_await c r report
  | waiting r => exact credential_await c r report
  | planned t o f =>
      simp only [advance]
      split
      · exact credential_await c.claim (.onFile f o) report
      · rfl

end Controller

namespace Desk

variable {σ : Type}

theorem credential_poll (d : Desk σ) (name : String) :
    (d.poll name).1.controller.credential = d.controller.credential := by
  unfold poll
  cases d.runs.lookup name with
  | none => rfl
  | some run =>
      have hkept := d.controller.credential_advance run (d.reports.lookup name)
      simp only
      split <;> simp_all

/-- Setting a key is the only thing that changes the one in force, even where the store refuses. -/
theorem key_step (store : Store σ) (d : Desk σ) (s : Step) :
    (d.step store s).1.controller.credential.value =
      s.key?.getD d.controller.credential.value := by
  cases s with
  | runCode name t code =>
      cases hc : d.controller.accepts t with
      | false => rw [step_runCode_busy store hc]; rfl
      | true => rw [step_runCode store hc]; rfl
  | poll name => exact congrArg Credential.value (d.credential_poll name)
  | setCredential value =>
      show (d.controller.credential.set store value).1.value = value
      unfold Credential.set
      simp only
      split <;> rfl
  | _ => rfl

end Desk

theorem Ledger.key_run {σ : Type} (store : Store σ) (credential : Credential σ)
    (steps : List Step) :
    (run store credential steps).desk.controller.credential.value =
      keyInForce credential.value steps := by
  induction steps using List.reverseRecOn with
  | nil => rfl
  | append_singleton steps s ih =>
      rw [run_append_one, keyInForce_append_one, ← ih]
      exact Desk.key_step store _ s

/-! ## The header of a request -/

theorem keyHeader_eq_none_iff {value : String} :
    keyHeader value = none ↔ Text.allBlank value = true := by
  rw [← Text.trim_eq_empty_iff, keyHeader]
  split <;> simp_all

theorem trims_of_keyHeader {value key : String} (h : keyHeader value = some key) :
    Text.Trims value key ∧ key ≠ "" := by
  unfold keyHeader at h
  split at h
  · cases h
  · next hne =>
    obtain rfl := Option.some.inj h
    exact ⟨Text.trims_trim value, hne⟩

/-- The key is trimmed when it is taken along and when it is sent, which comes to the same. -/
theorem Request.header_typed (code value : String) :
    (Request.typed code (keyHeader value)).header = keyHeader value := by
  simp only [Request.header, Request.typed]
  cases h : keyHeader value with
  | none => rfl
  | some key =>
      obtain ⟨htrims, hne⟩ := trims_of_keyHeader h
      obtain rfl := Text.trims_iff.mp htrims
      rw [Option.bind_some, keyHeader, Text.trim_trim, if_neg hne]

/-! ## Requests in the log -/

namespace Ledger

variable {σ : Type}

/-- A run that a step accepts is one of typed code, asked for in this step, or one on a file. -/
theorem accepted_of_mem_added (store : Store σ) {l : Ledger σ} {s : Step} {n : Nat} {t : Trigger}
    {r : Request} (h : .accepted n t r ∈ l.added store s) :
    (∃ name code, s = .runCode name t code ∧ n = l.log.length ∧
        r = .typed code l.desk.controller.credential.header) ∨
      ∃ f o, r = .onFile f o := by
  cases s with
  | runCode name t' code =>
      cases hc : l.desk.controller.accepts t' with
      | false =>
          rw [added_runCode_busy store hc] at h
          simp at h
      | true =>
          rw [added_runCode store hc] at h
          obtain ⟨rfl, rfl, rfl⟩ : n = l.log.length ∧ t = t' ∧
              r = .typed code l.desk.controller.credential.header := by
            simpa [Log.deeds] using h
          exact .inl ⟨name, code, rfl, rfl, rfl⟩
  | poll name =>
      simp only [added, lines] at h
      split at h
      · next n' run _ _ =>
        rcases List.mem_append.mp h with h | h
        · rcases List.mem_append.mp h with h | h
          · -- only a run on a file claims its place when it gets to go
            cases run with
            | planned t' o f =>
                simp only [claimed, List.mem_singleton] at h
                split at h
                · cases h
                · obtain ⟨-, -, rfl⟩ := Note.accepted.inj h
                  exact .inr ⟨f, o, rfl⟩
            | _ => cases h
          · simp at h
        · rcases mem_ended h with ⟨r, o, h⟩ | h <;> cases h
      · simp at h
  | _ => simp [added, lines] at h

/-- Every accepted run of typed code was asked for in some step, and goes with the key that was in
force then. -/
theorem accepted_of_mem_run (store : Store σ) (credential : Credential σ) {steps : List Step}
    {n : Nat} {t : Trigger} {r : Request} (h : .accepted n t r ∈ (run store credential steps).log) :
    (∃ before name code after, steps = before ++ .runCode name t code :: after ∧
        n = (run store credential before).log.length ∧
        r = .typed code (keyHeader (keyInForce credential.value before))) ∨
      ∃ f o, r = .onFile f o := by
  induction steps using List.reverseRecOn with
  | nil => cases h
  | append_singleton steps s ih =>
      rw [run_append_one] at h
      rcases List.mem_append.mp h with h | h
      · rcases ih h with ⟨before, name, code, after, rfl, hn, hr⟩ | hfile
        · exact .inl ⟨before, name, code, after ++ [s], by simp, hn, hr⟩
        · exact .inr hfile
      · rcases accepted_of_mem_added store h with ⟨name, code, rfl, hn, hr⟩ | hfile
        · refine .inl ⟨steps, name, code, [], rfl, hn, ?_⟩
          rw [hr, Credential.header, key_run]
        · exact .inr hfile

end Ledger

/-- What goes to the executor is the request of a run, as it was when the run was accepted. -/
theorem Written.accepted_of_invoke {log : Log} {k : Nat} (h : Written log k) {who : Option Nat}
    {r : Request} (hmem : .did who (.invoke r) ∈ log) :
    ∃ n t, who = some n ∧ .accepted n t r ∈ log := by
  -- only the line of a call is new in this respect; all others leave the old lines as they are
  have hold : ∀ {log more : Log}, (.did who (.invoke r) ∈ log → ∃ n t, who = some n ∧
      .accepted n t r ∈ log) → .did who (.invoke r) ∈ log ++ more →
      .did who (.invoke r) ∉ more → ∃ n t, who = some n ∧ .accepted n t r ∈ log ++ more := by
    intro log more ih hmem hmore
    obtain ⟨n, t, hwho, haccepted⟩ := ih ((List.mem_append.mp hmem).resolve_right hmore)
    exact ⟨n, t, hwho, List.mem_append_left _ haccepted⟩
  induction h with
  | nil => cases hmem
  | ask n name _ _ ih => exact hold ih hmem (by simp)
  | accept r' _ _ _ ih => exact hold ih hmem (by simp [Log.deeds])
  | ignore _ _ _ ih => exact hold ih hmem (by simp)
  | @invoke log k n name t r' _ hcourse ih =>
      by_cases hnew : .did who (.invoke r) ∈ [Note.did (some n) (.invoke r')]
      · obtain ⟨rfl, rfl⟩ : who = some n ∧ r = r' := by simpa using hnew
        have haccepted : .accepted n t r ∈ Log.course n log := by simp [hcourse]
        exact ⟨n, t, rfl, List.mem_append_left _ (Log.mem_course.mp haccepted).1⟩
      · exact hold ih hmem hnew
  | file name rep _ ih => exact hold ih hmem (by simp)
  | complete _ _ _ ih => exact hold ih hmem (by simp [Log.deeds])
  | decline _ _ ih => exact hold ih hmem (by simp)
  | clear _ ih => exact hold ih hmem (by simp [Log.deeds])

/-! ## What is sent -/

theorem Post.key_of_build {address code : String} {key : Option String} {post : Post}
    (h : Post.build address code key = .ok post) : post.key = key := by
  simp only [Post.build] at h
  split at h
  · cases h
  · split at h
    · cases h
    · split at h
      · cases h
      · split at h
        · cases h
        · obtain rfl := Except.ok.inj h
          rfl

/-- The network is asked about nothing but posts that carry the key of the request. -/
theorem invokeRemote_congr {network network' : Network} {r : Request}
    (h : ∀ post, post.key = r.header → network post = network' post)
    (settings : RemoteSettings) (disk : Files.Disk) :
    invokeRemote network settings disk r = invokeRemote network' settings disk r := by
  have hsend : ∀ limit address code, send network limit address code r.header =
      send network' limit address code r.header := by
    intro limit address code
    cases hpost : Post.build address code r.header with
    | error e => simp only [send, hpost, Except.mapError]; rfl
    | ok post =>
        have hsame := h post (Post.key_of_build hpost)
        simp only [send, hpost, Except.mapError, bind, Except.bind, hsame]
  simp only [invokeRemote, hsend]

/-- After every sequence of steps: an accepted run of typed code was asked for in a step, and with
`before` the steps before that one, the key of its request is the key in force then without the
blanks at its ends, and there is none exactly when that key is blank.  So no key that is sent is
empty, starts with a blank or ends with one.  A request about a file has no key.  Whatever the keys
set since, the request that a run hands to the executor is the one with which it was accepted, and
the remote executor asks the network about nothing but posts with the key of the request. -/
theorem key_taken_when_asked {σ : Type} (store : Store σ) (credential : Credential σ)
    (steps : List Step) :
    let l := Ledger.run store credential steps
    (∀ n t r, .accepted n t r ∈ l.log →
      (∃ before name code after, steps = before ++ .runCode name t code :: after ∧
        n = (Ledger.run store credential before).log.length ∧ r.origin = .typed code ∧
        (r.header = none ↔ Text.allBlank (keyInForce credential.value before) = true) ∧
        ∀ key, r.header = some key →
          Text.Trims (keyInForce credential.value before) key ∧ key ≠ "") ∨
      (∃ f, r.origin = .file f) ∧ r.credential = none ∧ r.header = none) ∧
    (∀ who r, .did who (.invoke r) ∈ l.log → ∃ n t, who = some n ∧ .accepted n t r ∈ l.log) ∧
    ∀ network network' settings disk r,
      (∀ post : Post, post.key = r.header → network post = network' post) →
      invokeRemote network settings disk r = invokeRemote network' settings disk r := by
  intro l
  refine ⟨?_, ?_, ?_⟩
  · intro n t r hmem
    rcases Ledger.accepted_of_mem_run store credential hmem with
      ⟨before, name, code, after, hsteps, hn, rfl⟩ | ⟨f, o, rfl⟩
    · refine .inl ⟨before, name, code, after, hsteps, hn, rfl, ?_, ?_⟩
      · rw [Request.header_typed, keyHeader_eq_none_iff]
      · intro key hkey
        rw [Request.header_typed] at hkey
        exact trims_of_keyHeader hkey
    · exact .inr ⟨⟨f, rfl⟩, rfl, rfl⟩
  · intro who r hmem
    exact (tracks_run store credential steps).written.accepted_of_invoke hmem
  · intro network network' settings disk r hsame
    exact invokeRemote_congr hsame settings disk

/-- The key is changed between the call and the first poll of a run. -/
theorem key_taken_when_asked_changed :
    let steps : List Step := [.setCredential " k\u00A0", .runCode "a" .button "1",
      .setCredential "other", .poll "a"]
    let r : Request := .typed "1" (some "k")
    let l := Ledger.run memoryStore ⟨"", []⟩ steps
    .did (some 0) (.invoke r) ∈ l.log ∧
      ∃ t before name code after, .accepted 0 t r ∈ l.log ∧
        steps = before ++ .runCode name t code :: after ∧ r.header = some "k" ∧
        Text.Trims (keyInForce "" before) "k" := by
  intro steps r l
  have hinvoke : .did (some 0) (.invoke r) ∈ l.log := by decide +kernel
  have hheader : r.header = some "k" := by decide +kernel
  obtain ⟨haccepted, hinvoked, -⟩ := key_taken_when_asked memoryStore ⟨"", []⟩ steps
  obtain ⟨n, t, hn, hmem⟩ := hinvoked _ _ hinvoke
  obtain rfl := Option.some.inj hn
  refine ⟨hinvoke, t, ?_⟩
  rcases haccepted 0 t r hmem with ⟨before, name, code, after, hsteps, -, -, -, hkey⟩ | ⟨⟨f, hf⟩, -⟩
  · exact ⟨before, name, code, after, hmem, hsteps, hheader, (hkey "k" hheader).1⟩
  · cases hf

end Relay

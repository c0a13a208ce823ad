import Relay.Proofs.Session.Transcript

/-!
# What a session sends, and how it ends

The request of a run carries the program and the key of the moment at which the run was asked for,
and that is the program that the inputs heard so far make (`AcceptedAt`).  After the line that quits,
neither the session nor the reader of its lines takes any notice of what else is typed; the runs go on
until none is left, and each that was accepted has written its outcome once.
-/

namespace Relay

/-! ## The reader of lines -/

namespace Cli.Play

/-- The octets are a line that quits. -/
def QuitLine (octets : Bytes) : Prop :=
  ∃ text, Session.Input.parse text = .quit ∧
    Utf8.decode? (if octets.getLast? = some (Bytes.ascii '\r') then octets.dropLast else octets) =
      some text

theorem closed_readOctets {p : Play} {q : Bytes} (hq : QuitLine q) :
    (p.readOctets q).1.closed = true := by
  obtain ⟨text, htext, hdecode⟩ := hq
  simp only [readOctets, hdecode, readLine, htext, if_true, stopReading]
  split <;> rfl

/-- The reader reads nothing behind a line that quits. -/
theorem readAll_of_quit {q : Bytes} (hq : QuitLine q) (p : Play)
    (before after : List Bytes) :
    p.readAll (before ++ q :: after) = p.readAll (before ++ [q]) := by
  induction before generalizing p with
  | nil =>
      have hrest : ∀ ls, (p.readOctets q).1.readAll ls = ((p.readOctets q).1, []) := by
        intro ls
        cases ls with
        | nil => rfl
        | cons l ls => rw [readAll, if_pos (closed_readOctets hq)]
      simp only [List.nil_append, readAll, hrest]
  | cons l before ih => simp only [List.cons_append, readAll, ih]

end Cli.Play

namespace Session

variable {σ : Type}

open Cli.Play (lines)

/-! ## What is typed and what is sent -/

theorem ended_run (store : Store σ) (credential : Credential σ) (steps : List Step) :
    (Chronicle.run store credential steps).session.ended = steps.any Step.quits := by
  induction steps using List.reverseRecOn with
  | nil => rfl
  | append_singleton steps s ih =>
      rw [Chronicle.run_append_one, List.any_append, ← ih]
      show ((Chronicle.run store credential steps).session.step store s).1.ended = _
      generalize (Chronicle.run store credential steps).session = before
      cases s with
      | line text =>
          cases hended : before.ended <;>
            simp [Session.step, hended, ended_takeInput, Step.quits]
      | ended => simp [Session.step, Step.quits]
      | poll n report => simp [Session.step, (poll_keeps before n report).2.1, Step.quits]

/-- The program of a session is the one that its inputs make. -/
theorem program_run (store : Store σ) (credential : Credential σ) (steps : List Step) :
    (Chronicle.run store credential steps).session.program = programOf (heard steps) := by
  induction steps using List.reverseRecOn with
  | nil => rfl
  | append_singleton steps s ih =>
      have hended := ended_run store credential steps
      rw [Chronicle.run_append_one, heard_append_one, ← hended]
      show ((Chronicle.run store credential steps).session.step store s).1.program = _
      revert ih hended
      generalize (Chronicle.run store credential steps).session = before
      intro ih hended
      cases s with
      | line text =>
          cases hquit : before.ended with
          | true => simpa [Session.step, hquit] using ih
          | false =>
              simp only [Session.step, hquit, Bool.false_eq_true, if_false, Step.input?,
                Option.toList_some]
              rw [program_takeInput, programOf_append_one, ih]
      | ended => simpa [Session.step, Step.input?] using ih
      | poll n report =>
          simpa [Session.step, (poll_keeps before n report).1, Step.input?] using ih

/-- Runs are numbered in the order in which they are asked for. -/
theorem next_run (store : Store σ) (credential : Credential σ) (steps : List Step) :
    (Chronicle.run store credential steps).session.next = (heard steps).countP Input.isRun := by
  induction steps using List.reverseRecOn with
  | nil => rfl
  | append_singleton steps s ih =>
      have hended := ended_run store credential steps
      rw [Chronicle.run_append_one, heard_append_one, ← hended, List.countP_append, ← ih]
      show ((Chronicle.run store credential steps).session.step store s).1.next = _
      generalize (Chronicle.run store credential steps).session = before
      cases s with
      | line text =>
          cases hquit : before.ended with
          | true => simp [Session.step, hquit]
          | false => simp [Session.step, hquit, next_takeInput, Step.input?]
      | ended => simp [Session.step, Step.input?]
      | poll n report => simp [Session.step, (poll_keeps before n report).2.2, Step.input?]

/-- Run `n` is accepted with the request `r` by the line that is read after the steps `before`: lines
are still taken, and the line asks for a run whose trigger is free.  The request has the program and the
key of that moment. -/
structure AcceptedAt (store : Store σ) (credential : Credential σ) (before : List Step)
    (text : String) (n : Nat) (r : Request) : Prop where
  reading : before.any Step.quits = false
  asked : ∃ t, Input.parse text = .run t ∧
    ((Chronicle.run store credential before).session.controller.inFlight = 0 ∨ t = .accelerator)
  number : n = (Chronicle.run store credential before).session.next
  request : r = .typed (programOf (heard before))
    (Chronicle.run store credential before).session.controller.credential.header

namespace Told

variable {c : Chronicle σ}

/-- A run is accepted by a line that asks for it while lines are taken, and by nothing else; its
request carries the program and the key of that moment. -/
theorem marked_accepted_iff (store : Store σ) (h : Told c) {s : Step} {n : Nat} {r : Request} :
    .accepted n r ∈ c.session.marked store s ↔
      ∃ text t, s = .line text ∧ c.session.ended = false ∧ Input.parse text = .run t ∧
        c.session.controller.accepts t = true ∧ n = c.session.next ∧
        r = .typed c.session.program c.session.controller.credential.header := by
  constructor
  · intro hmem
    cases s with
    | line text =>
        simp only [Session.marked, Session.step] at hmem
        cases hended : c.session.ended with
        | true => simp [hended, started] at hmem
        | false =>
            simp only [hended, Bool.false_eq_true, if_false] at hmem
            by_cases hrun : ∃ t, Input.parse text = .run t
            · obtain ⟨t, ht⟩ := hrun
              simp only [ht, takeInput] at hmem
              cases hc : c.session.controller.accepts t with
              | true =>
                  rw [h.started_of_accepts hc, List.mem_singleton, Mark.accepted.injEq] at hmem
                  exact ⟨text, t, rfl, rfl, ht, hc, hmem⟩
              | false =>
                  rw [h.started_of_not_accepts hc] at hmem
                  cases hmem
            · have hnext := (quiet_takeInput store c.session (i := .parse text)
                fun t ht => hrun ⟨t, ht⟩).2.1
              rw [started, if_pos hnext] at hmem
              cases hmem
    | ended => simp [Session.marked, Session.step, started] at hmem
    | poll m report =>
        simp only [Session.marked, Session.rendered] at hmem
        split at hmem
        · cases hmem
        · split at hmem <;> simp at hmem
  · rintro ⟨text, t, rfl, hended, ht, hc, rfl, rfl⟩
    simp only [Session.marked, Session.step, hended, Bool.false_eq_true, if_false, ht, takeInput]
    rw [h.started_of_accepts hc]
    exact List.mem_singleton.mpr rfl

/-- What is rendered is the outcome of a report on a run that was accepted, and it is shown there and
then. -/
theorem step_of_rendered (store : Store σ) (h : Told c) {s : Step} {n : Nat} {r : Request}
    {o : Outcome} (hmem : .rendered n r o ∈ c.session.marked store s) :
    ∃ rep, s = .poll n (some rep) ∧ o = rep.outcome ∧ .accepted n r ∈ c.marks ∧
      ∃ calls, (calls = [] ∨ calls = [.invoke n r]) ∧
        (c.session.step store s).2 = calls ++ showEvents (Controller.shown r o) := by
  cases s with
  | line text =>
      simp only [Session.marked, started] at hmem
      split at hmem
      · cases hmem
      · split at hmem <;> simp at hmem
  | ended => simp [Session.marked, Session.step, started] at hmem
  | poll m report =>
      have hstands := h.stands m
      have hcourse : ∀ x ∈ c.course m, x ∈ c.marks := fun x hx => (List.mem_filter.mp hx).1
      generalize c.course m = course at hstands hcourse
      generalize c.calls m = calls at hstands
      generalize c.wrote m = written at hstands
      replace hmem : .rendered n r o ∈ c.session.rendered m report := hmem
      cases hrun : c.session.runs.lookup m with
      | none =>
          rw [(poll_none hrun report).2] at hmem
          cases hmem
      | some run =>
          rw [hrun] at hstands
          cases hstands with
          | ignored =>
              rw [(poll_ignored hrun report).2] at hmem
              cases hmem
          | accepted r' =>
              cases report with
              | none =>
                  rw [(poll_accepted_none hrun).2] at hmem
                  cases hmem
              | some rep =>
                  obtain ⟨hpoll, hmarks⟩ := poll_accepted_some hrun rep
                  rw [hmarks, List.mem_singleton, Mark.rendered.injEq] at hmem
                  obtain ⟨rfl, rfl, rfl⟩ := hmem
                  exact ⟨rep, rfl, rfl, hcourse _ List.mem_cons_self, _, .inr rfl,
                    congrArg Prod.snd hpoll⟩
          | waiting r' =>
              cases report with
              | none =>
                  rw [(poll_waiting_none hrun).2] at hmem
                  cases hmem
              | some rep =>
                  obtain ⟨hpoll, hmarks⟩ := poll_waiting_some hrun rep
                  rw [hmarks, List.mem_singleton, Mark.rendered.injEq] at hmem
                  obtain ⟨rfl, rfl, rfl⟩ := hmem
                  exact ⟨rep, rfl, rfl, hcourse _ List.mem_cons_self, _, .inl rfl,
                    congrArg Prod.snd hpoll⟩

end Told

theorem marked_acceptedAt_iff (store : Store σ) (credential : Credential σ) (before : List Step)
    {s : Step} {n : Nat} {r : Request} :
    .accepted n r ∈ (Chronicle.run store credential before).session.marked store s ↔
      ∃ text, s = .line text ∧ AcceptedAt store credential before text n r := by
  rw [(told_run store credential before).marked_accepted_iff store, ended_run, program_run]
  constructor
  · rintro ⟨text, t, hs, hreading, ht, hfree, hn, hr⟩
    exact ⟨text, hs, hreading, ⟨t, ht, Controller.accepts_iff.mp hfree⟩, hn, hr⟩
  · rintro ⟨text, hs, hreading, ⟨t, ht, hfree⟩, hn, hr⟩
    exact ⟨text, t, hs, hreading, ht, Controller.accepts_iff.mpr hfree, hn, hr⟩

theorem Chronicle.mem_marks_foldl (store : Store σ) {c : Chronicle σ} {m : Mark} (h : m ∈ c.marks)
    (steps : List Step) : m ∈ (steps.foldl (Chronicle.step store) c).marks := by
  induction steps generalizing c with
  | nil => exact h
  | cons s steps ih => exact ih (List.mem_append_left _ h)

/-- The runs that were accepted are those of the lines that asked for them, each under its number. -/
theorem accepted_iff (store : Store σ) (credential : Credential σ) (steps : List Step) {n : Nat}
    {r : Request} :
    .accepted n r ∈ (Chronicle.run store credential steps).marks ↔
      ∃ before text after, steps = before ++ .line text :: after ∧
        AcceptedAt store credential before text n r := by
  constructor
  · intro h
    induction steps using List.reverseRecOn with
    | nil => cases h
    | append_singleton steps s ih =>
        rw [Chronicle.run_append_one] at h
        rcases List.mem_append.mp h with h | h
        · obtain ⟨before, text, after, rfl, hat⟩ := ih h
          exact ⟨before, text, after ++ [s], by simp, hat⟩
        · obtain ⟨text, rfl, hat⟩ := (marked_acceptedAt_iff store credential steps).mp h
          exact ⟨steps, text, [], rfl, hat⟩
  · rintro ⟨before, text, after, rfl, hat⟩
    have hmark : .accepted n r ∈ (Chronicle.run store credential (before ++ [.line text])).marks := by
      rw [Chronicle.run_append_one]
      exact List.mem_append_right _ ((marked_acceptedAt_iff store credential before).mpr ⟨text, rfl, hat⟩)
    rw [List.append_cons, Chronicle.run_append]
    exact Chronicle.mem_marks_foldl store hmark after

/-- An outcome that was rendered is that of a report which came when the run got to go. -/
theorem rendered_origin (store : Store σ) (credential : Credential σ) {steps : List Step} {n : Nat}
    {r : Request} {o : Outcome}
    (h : .rendered n r o ∈ (Chronicle.run store credential steps).marks) :
    ∃ rep, .poll n (some rep) ∈ steps ∧ o = rep.outcome := by
  induction steps using List.reverseRecOn with
  | nil => cases h
  | append_singleton steps s ih =>
      rw [Chronicle.run_append_one] at h
      rcases List.mem_append.mp h with h | h
      · obtain ⟨rep, hstep, ho⟩ := ih h
        exact ⟨rep, List.mem_append_left _ hstep, ho⟩
      · obtain ⟨rep, rfl, ho, -⟩ := (told_run store credential steps).step_of_rendered store h
        exact ⟨rep, by simp, ho⟩

/-! ## After the last line -/

/-- The step lets a run go. -/
def Step.isPoll : Step → Bool
  | .poll _ _ => true
  | .line _ | .ended => false

theorem step_of_ended (store : Store σ) {c : Chronicle σ} (h : c.session.ended = true) {s : Step}
    (hs : s.isPoll = false) : c.step store s = c := by
  obtain ⟨session, acts, marks⟩ := c
  replace h : session.ended = true := h
  cases s with
  | line text => simp [Chronicle.step, Chronicle.noted, Session.step, Session.marked, started, h]
  | ended =>
      have hsession : { session with ended := true } = session := by rw [← h]
      simp [Chronicle.step, Chronicle.noted, Session.step, Session.marked, started, hsession]
  | poll n report => cases hs

/-- Once no lines are taken, only the runs matter. -/
theorem foldl_of_ended (store : Store σ) {c : Chronicle σ} (h : c.session.ended = true)
    (steps : List Step) :
    steps.foldl (Chronicle.step store) c =
      (steps.filter Step.isPoll).foldl (Chronicle.step store) c := by
  induction steps generalizing c with
  | nil => rfl
  | cons s steps ih =>
      cases hs : s.isPoll with
      | false =>
          rw [List.filter_cons_of_neg (by simp [hs]), List.foldl_cons, step_of_ended store h hs]
          exact ih h
      | true =>
          have hended : (c.step store s).session.ended = true := by
            cases s with
            | poll n report => exact (poll_keeps c.session n report).2.1.trans h
            | _ => cases hs
          rw [List.filter_cons_of_pos hs, List.foldl_cons, List.foldl_cons]
          exact ih hended

theorem run_of_quit (store : Store σ) (credential : Credential σ) (before after : List Step)
    {q : String} (hq : Input.parse q = .quit) :
    Chronicle.run store credential (before ++ .line q :: after) =
      Chronicle.run store credential (before ++ .line q :: after.filter Step.isPoll) := by
  have hended : (Chronicle.run store credential (before ++ [.line q])).session.ended = true := by
    simp [ended_run, Step.quits, hq]
  have hsplit : ∀ more, Chronicle.run store credential (before ++ .line q :: more) =
      more.foldl (Chronicle.step store) (Chronicle.run store credential (before ++ [.line q])) := by
    intro more
    rw [← Chronicle.run_append, List.append_assoc]
    rfl
  rw [hsplit after, hsplit (after.filter Step.isPoll)]
  exact foldl_of_ended store hended after

/-- Runs can be brought to their end in any order. -/
theorem Sound.runs_drained (store : Store σ) {c : Chronicle σ} (h : c.session.Sound)
    (reports : Nat → Report) (order : List Nat) :
    ((order.map fun n => Step.poll n (some (reports n))).foldl (Chronicle.step store) c).session.runs
      = c.session.runs.filter (·.1 ∉ order) := by
  induction order generalizing c with
  | nil => simp
  | cons n order ih =>
      have hruns : (c.step store (.poll n (some (reports n)))).session.runs =
          c.session.runs.filter (·.1 != n) := h.runs_poll fun _ _ _ _ => rfl
      rw [List.map_cons, List.foldl_cons, ih (h.step store _), hruns, filter_not_mem_cons]

theorem isOver_drained (store : Store σ) (credential : Credential σ) {steps : List Step}
    (hended : (Chronicle.run store credential steps).session.ended = true) (reports : Nat → Report)
    {order : List Nat}
    (horder : ∀ p ∈ (Chronicle.run store credential steps).session.runs, p.1 ∈ order) :
    (Chronicle.run store credential
      (steps ++ order.map fun n => .poll n (some (reports n)))).session.isOver = true := by
  have hstill : (Chronicle.run store credential
      (steps ++ order.map fun n => .poll n (some (reports n)))).session.ended = true := by
    rw [ended_run] at hended ⊢
    rw [List.any_append, hended, Bool.true_or]
  rw [isOver, hstill, Chronicle.run_append,
    (sound_run store credential steps).runs_drained store reports order]
  simpa using horder

/-! ## Whole sessions -/

namespace Stands

variable {n : Nat} {run : Option Run} {marks : List Mark} {calls : List Request}
  {written : List Line} {r : Request}

theorem accepted_of_call (h : Stands n run marks calls written) (hcall : r ∈ calls) :
    .accepted n r ∈ marks := by
  cases h with
  | waiting r' => simp [List.mem_singleton.mp hcall]
  | done r' o => simp [List.mem_singleton.mp hcall]
  | _ => cases hcall

/-- An accepted run that is not held any more has its whole course behind it. -/
theorem done_of_accepted (h : Stands n none marks calls written) (hmem : .accepted n r ∈ marks) :
    ∃ o, marks = [.accepted n r, .rendered n r o] ∧ calls = [r] ∧
      written = lines (showEvents (Controller.shown r o)) := by
  cases h with
  | unknown => cases hmem
  | done r' o =>
      obtain rfl : r = r' := by simpa using hmem
      exact ⟨o, rfl, rfl, rfl⟩

/-- A run that was not accepted writes at most that it was not. -/
theorem written_of_not_accepted (h : Stands n run marks calls written)
    (hnot : ∀ r, .accepted n r ∉ marks) : written = [] ∨ written = lines busy := by
  cases h with
  | unknown hwritten => exact hwritten
  | ignored => exact .inl rfl
  | accepted r | waiting r | done r => exact absurd List.mem_cons_self (hnot r)

end Stands

theorem Chronicle.mem_course_accepted {c : Chronicle σ} {n : Nat} {r : Request} :
    .accepted n r ∈ c.course n ↔ .accepted n r ∈ c.marks := by
  simp [Chronicle.course, Mark.run]

namespace Told

variable {c : Chronicle σ} {n : Nat} {r : Request}

/-- What the chronicle tells of a run decides what was handed over for it. -/
theorem accepted_of_invoke (h : Told c) (hmem : .invoke n r ∈ c.deeds) : .accepted n r ∈ c.marks := by
  have hcall : r ∈ c.calls n := List.mem_filterMap.mpr ⟨_, hmem, by simp [Deed.call?]⟩
  exact Chronicle.mem_course_accepted.mp ((h.stands n).accepted_of_call hcall)

/-- When nothing is held any more, every accepted run has its whole course behind it. -/
theorem course_of_isOver (h : Told c) (hover : c.session.isOver = true)
    (hmem : .accepted n r ∈ c.marks) :
    ∃ o, c.course n = [.accepted n r, .rendered n r o] ∧ c.calls n = [r] ∧
      c.wrote n = lines (showEvents (Controller.shown r o)) := by
  have hruns : c.session.runs = [] := by simpa using (Bool.and_eq_true_iff.mp hover).2
  have hstands := h.stands n
  rw [hruns] at hstands
  exact hstands.done_of_accepted (Chronicle.mem_course_accepted.mpr hmem)

theorem wrote_of_not_accepted (h : Told c) (hnot : ∀ r, .accepted n r ∉ c.marks) :
    c.wrote n = [] ∨ c.wrote n = lines busy :=
  (h.stands n).written_of_not_accepted fun r hr => hnot r (Chronicle.mem_course_accepted.mp hr)

end Told

end Session

/-- For every sequence of lines and any interleaving with the runs going on: the runs that are accepted
are those of the lines that asked for one while its trigger was free, numbered in the order in which they
were asked for; and the request of each carries the program that the inputs heard before its own line
make, which is the last text to start anew with and the lines since, as they were typed, with the key of
that moment.  No other request reaches the executor.  Only a reset, a sample that exists and a line of
code change the program.  Nothing typed after the line that quits has any effect, on the session or on
the reader of its lines.  When the session is over, each accepted run has been handed over once, what it
has written is the view of its outcome, once, and nothing is in flight; a run that was not accepted has
written at most that it was not.  The session can be brought there from wherever it stands, in any
order of the runs that are left, and the program that holds it does so before it ends. -/
theorem session_sends_program {σ : Type} (store : Store σ) (credential : Credential σ)
    (steps : List Session.Step) :
    let c := Session.Chronicle.run store credential steps
    c.session = steps.foldl (fun s step => (s.step store step).1) (Session.new credential) ∧
    (∀ n r, .accepted n r ∈ c.marks ↔ ∃ before text after, steps = before ++ .line text :: after ∧
      Session.AcceptedAt store credential before text n r) ∧
    c.session.next = (Session.heard steps).countP Session.Input.isRun ∧
    (∀ n r, .invoke n r ∈ c.deeds → .accepted n r ∈ c.marks) ∧
    c.session.program = Session.programOf (Session.heard steps) ∧
    (∀ line text, Session.Input.parse line = .line text → text = line) ∧
    (∀ (s : Session σ) i, i.base? = none → i.code? = none →
      (s.takeInput store i).1.program = s.program) ∧
    (∀ before q after, Session.Input.parse q = .quit → steps = before ++ .line q :: after →
      c = Session.Chronicle.run store credential
        (before ++ .line q :: after.filter Session.Step.isPoll)) ∧
    (∀ (p : Cli.Play) before q after, Cli.Play.QuitLine q →
      p.readAll (before ++ q :: after) = p.readAll (before ++ [q])) ∧
    (c.session.isOver = true →
      (∀ n r, .accepted n r ∈ c.marks → ∃ rep, .poll n (some rep) ∈ steps ∧
        c.course n = [.accepted n r, .rendered n r rep.outcome] ∧ c.calls n = [r] ∧
        Renders rep.outcome.playground (c.wrote n)) ∧
      c.session.controller.inFlight = 0) ∧
    (∀ n, (∀ r, .accepted n r ∉ c.marks) → c.wrote n = [] ∨
      c.wrote n = [⟨.out, "[busy] A run is in flight; :r runs alongside it.\n"⟩]) ∧
    (∀ s n r o, .rendered n r o ∈ c.session.marked store s →
      ∃ rep, s = .poll n (some rep) ∧ o = rep.outcome ∧
        ∃ calls written, (calls = [] ∨ calls = [.invoke n r]) ∧ Renders o.playground written ∧
          (c.session.step store s).2 = calls ++ written.map .write) ∧
    (∀ (reports : Nat → Report) (order : List Nat), c.session.ended = true →
      (∀ p ∈ c.session.runs, p.1 ∈ order) →
      (Session.Chronicle.run store credential
        (steps ++ order.map fun n => .poll n (some (reports n)))).session.isOver = true) ∧
    ∀ settings disks key historyFile (moves : List Cli.Play.Move) network,
      let t := (moves ++ [Cli.Play.Move.settled network]).foldl Cli.Play.Transcript.move
        (Cli.Play.Transcript.start settings disks key historyFile)
      t.play.session.runs = [] ∧ t.play.session.controller.inFlight = 0 := by
  intro c
  have h : Session.Told c := Session.told_run store credential steps
  -- every request of a session is for typed code, so its outcome has the view of the playground
  have htyped : ∀ n r, .accepted n r ∈ c.marks → ∃ code key, r = .typed code key := by
    intro n r hmem
    obtain ⟨_, _, _, -, hat⟩ := (Session.accepted_iff store credential steps).mp hmem
    exact ⟨_, _, hat.request⟩
  refine ⟨Session.Chronicle.session_run store credential steps,
    fun n r => Session.accepted_iff store credential steps, Session.next_run store credential steps,
    fun n r => h.accepted_of_invoke, Session.program_run store credential steps,
    fun line text => Session.Input.eq_of_parse_line, ?_, ?_, ?_, ?_, ?_, ?_, ?_, ?_⟩
  · intro s i hbase hcode
    rw [Session.program_takeInput, Session.Input.amend, hbase, hcode]
    exact String.append_empty
  · rintro before q after hq rfl
    exact Session.run_of_quit store credential before after hq
  · intro p before q after hq
    exact Cli.Play.readAll_of_quit hq p before after
  · intro hover
    refine ⟨fun n r hmem => ?_, ?_⟩
    · obtain ⟨o, hcourse, hcalls, hwrote⟩ := h.course_of_isOver hover hmem
      obtain ⟨code, key, rfl⟩ := htyped n r hmem
      have hrendered : .rendered n (.typed code key) o ∈ c.course n := by simp [hcourse]
      obtain ⟨rep, hstep, rfl⟩ :=
        Session.rendered_origin store credential (List.mem_filter.mp hrendered).1
      exact ⟨rep, hstep, hcourse, hcalls, hwrote ▸ Session.renders_shown code key rep.outcome⟩
    · have hruns : c.session.runs = [] := by simpa using (Bool.and_eq_true_iff.mp hover).2
      rw [h.numbered.count, hruns]
      rfl
  · intro n hnot
    exact h.wrote_of_not_accepted hnot
  · intro s n r o hmem
    obtain ⟨rep, hs, ho, haccepted, calls, hcalls, hdeeds⟩ := h.step_of_rendered store hmem
    obtain ⟨code, key, rfl⟩ := htyped n r haccepted
    refine ⟨rep, hs, ho, calls, _, hcalls, Session.renders_shown code key o, ?_⟩
    rw [hdeeds, Session.lines_showEvents]
    rfl
  · intro reports order hended horder
    exact Session.isOver_drained store credential hended reports horder
  · intro settings disks key historyFile moves network t
    have hclean := (Cli.Play.Transcript.Clean.start settings disks key historyFile).run moves
    have hlast : t = (moves.foldl Cli.Play.Transcript.move
        (Cli.Play.Transcript.start settings disks key historyFile)).move (.settled network) :=
      List.foldl_concat ..
    rw [hlast]
    exact Cli.Play.idle_settle network hclean.sound

/-- A run is asked for, the program is edited and a second run overlaps the first; a third finds its
trigger disabled.  The outcomes come after the line that quits, the second run's first.  What is typed
behind that line is lost, and each run sends what had been typed before its own line. -/
theorem session_sends_program_overlap :
    let first : List Session.Step := [.line ":reset", .line "  x"]
    let second : List Session.Step := [.line ":reset", .line "  x", .line ":run", .poll 0 none,
      .line "y"]
    let steps : List Session.Step := second ++ .line ":r" :: [.line ":run", .line ":q", .line "z",
      .poll 1 (some (.http 200 { Reply.blank with success := true, output := some "hi" })),
      .poll 2 none, .poll 0 (some (.http 401 Reply.blank))]
    let c := Session.Chronicle.run memoryStore ⟨" k ", []⟩ steps
    Session.AcceptedAt memoryStore ⟨" k ", []⟩ first ":run" 0 (.typed "  x\n" (some "k")) ∧
    Session.AcceptedAt memoryStore ⟨" k ", []⟩ second ":r" 1 (.typed "  x\ny\n" (some "k")) ∧
    c.session.isOver = true ∧ c.session.program = "  x\ny\n" ∧ c.session.next = 3 ∧
    c.calls 0 = [.typed "  x\n" (some "k")] ∧ c.calls 1 = [.typed "  x\ny\n" (some "k")] ∧
    (∃ rep, .poll 0 (some rep) ∈ steps ∧ Renders rep.outcome.playground (c.wrote 0)) ∧
    (∃ rep, .poll 1 (some rep) ∈ steps ∧ Renders rep.outcome.playground (c.wrote 1)) ∧
    c.session.controller.inFlight = 0 := by
  intro first second steps c
  have hfirst : Session.AcceptedAt memoryStore ⟨" k ", []⟩ first ":run" 0
      (.typed "  x\n" (some "k")) :=
    ⟨by decide +kernel, ⟨.button, by decide +kernel, .inl (by decide +kernel)⟩, by decide +kernel,
      by decide +kernel⟩
  have hsecond : Session.AcceptedAt memoryStore ⟨" k ", []⟩ second ":r" 1
      (.typed "  x\ny\n" (some "k")) :=
    ⟨by decide +kernel, ⟨.accelerator, by decide +kernel, .inr rfl⟩, by decide +kernel,
      by decide +kernel⟩
  have hover : c.session.isOver = true := by decide +kernel
  obtain ⟨-, haccepted, hnext, -, hprogram, -, -, -, -, hdone, -⟩ :=
    session_sends_program memoryStore ⟨" k ", []⟩ steps
  obtain ⟨hrendered, hidle⟩ := hdone hover
  obtain ⟨rep₀, hpoll₀, -, hcalls₀, hwrote₀⟩ :=
    hrendered _ _ ((haccepted 0 _).mpr ⟨first, ":run", _, rfl, hfirst⟩)
  obtain ⟨rep₁, hpoll₁, -, hcalls₁, hwrote₁⟩ :=
    hrendered _ _ ((haccepted 1 _).mpr ⟨second, ":r", _, rfl, hsecond⟩)
  exact ⟨hfirst, hsecond, hover, hprogram.trans (by decide +kernel), hnext.trans (by decide +kernel),
    hcalls₀, hcalls₁, ⟨rep₀, hpoll₀, hwrote₀⟩, ⟨rep₁, hpoll₁, hwrote₁⟩, hidle⟩

end Relay

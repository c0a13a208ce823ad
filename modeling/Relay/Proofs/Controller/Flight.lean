import Mathlib.Data.List.Basic
import Relay.Proofs.Controller.Tracking

/-!
# Runs in flight

The controller keeps one number and no list of its runs.  Here the runs in flight are read off the
log, as those that were accepted and have not completed, oldest first, and the number is shown to
be their count whatever order they end in.  The surface follows from it: the trigger was last told
that it is enabled exactly when nothing is in flight.

A run that is given up before it completes stays in flight for ever; nothing here assumes that
runs are not given up.
-/

namespace Relay

/-- A run that was accepted. -/
structure Ticket where
  run : Nat
  trigger : Trigger
  request : Request
  deriving DecidableEq, Repr

namespace Note

/-- The run that a line accepts. -/
def ticket? : Note → Option Ticket
  | accepted n t r => some ⟨n, t, r⟩
  | _ => none

/-- The line ends run `n` with an outcome. -/
def completes (n : Nat) : Note → Bool
  | completed m _ _ _ => m == n
  | _ => false

theorem marks_of_completes {n : Nat} {m : Note} (h : m.completes n = true) : m.marks n = true := by
  cases m with
  | completed k name r o => simpa [completes, marks, run?] using h
  | _ => simp [completes] at h

end Note

namespace Log

/-- The runs that were accepted, in the order of acceptance. -/
def tickets (log : Log) : List Ticket := log.filterMap Note.ticket?

/-- Run `n` has completed. -/
def isDone (n : Nat) (log : Log) : Bool := log.any (Note.completes n)

/-- The runs in flight, oldest first: accepted and not completed. -/
def unfinished (log : Log) : List Ticket := (tickets log).filter fun t => !isDone t.run log

@[simp] theorem tickets_append (log more : Log) :
    tickets (log ++ more) = tickets log ++ tickets more := by
  simp [tickets]

@[simp] theorem isDone_append (n : Nat) (log more : Log) :
    isDone n (log ++ more) = (isDone n log || isDone n more) := by
  simp [isDone]

@[simp] theorem tickets_deeds (who : Option Nat) (es : List Event) :
    tickets (deeds who es) = [] := by
  simp [tickets, deeds, Note.ticket?]

@[simp] theorem isDone_deeds (n : Nat) (who : Option Nat) (es : List Event) :
    isDone n (deeds who es) = false := by
  simp [isDone, deeds, Note.completes]

/-- Whether a run has completed can be read off its course. -/
theorem isDone_course (n : Nat) (log : Log) : isDone n (course n log) = isDone n log := by
  simp only [isDone, course, List.any_filter]
  congr 1
  funext m
  cases hm : m.completes n with
  | false => simp
  | true => simp [Note.marks_of_completes hm]

/-- The tickets of a run can be read off its course. -/
theorem tickets_course (n : Nat) (log : Log) :
    tickets (course n log) = (tickets log).filter (·.run == n) := by
  have hline : ∀ m : Note, (if m.marks n then m.ticket? else none) =
      m.ticket?.filter (·.run == n) := by
    intro m
    cases m with
    | accepted k t r => simp [Note.ticket?, Note.marks, Note.run?, Option.filter]
    | _ => simp [Note.ticket?]
  rw [tickets, course, tickets, List.filterMap_filter, List.filter_filterMap]
  exact congrArg (List.filterMap · log) (funext hline)

/-! ## What lines do to the runs in flight -/

theorem unfinished_append {log more : Log} (htickets : tickets more = [])
    (hdone : ∀ n, isDone n more = false) : unfinished (log ++ more) = unfinished log := by
  simp [unfinished, htickets, hdone]

theorem unfinished_accept {log : Log} {n : Nat} {t : Trigger} {r : Request}
    (hdone : isDone n log = false) (es : List Event) :
    unfinished (log ++ .accepted n t r :: deeds (some n) es) = unfinished log ++ [⟨n, t, r⟩] := by
  have htickets : tickets (.accepted n t r :: deeds (some n) es) = [⟨n, t, r⟩] := by
    rw [← List.singleton_append, tickets_append, tickets_deeds]
    rfl
  have hmore : ∀ k, isDone k (.accepted n t r :: deeds (some n) es) = false :=
    fun k => isDone_deeds k _ _
  simp [unfinished, htickets, hmore, hdone]

theorem unfinished_complete (log : Log) (n : Nat) (name : String) (r : Request) (o : Outcome)
    (es : List Event) :
    unfinished (log ++ (deeds (some n) es ++ [.completed n name r o])) =
      (unfinished log).filter (·.run != n) := by
  have htickets : tickets (deeds (some n) es ++ [.completed n name r o]) = [] := by
    rw [tickets_append, tickets_deeds]
    rfl
  have hmore : ∀ k, isDone k (deeds (some n) es ++ [.completed n name r o]) = (n == k) := by
    intro k
    rw [isDone_append, isDone_deeds]
    simp [isDone, Note.completes]
  simp only [unfinished, tickets_append, htickets, List.append_nil, isDone_append, hmore,
    List.filter_filter]
  congr 1
  funext t
  cases isDone t.run log <;> simp [bne, BEq.comm (a := n)]

/-- A run whose course shows one acceptance and no completion is in flight once. -/
theorem filter_unfinished_eq {log : Log} {n : Nat} {x : Ticket}
    (htickets : tickets (course n log) = [x]) (hdone : isDone n (course n log) = false) :
    (unfinished log).filter (·.run == n) = [x] := by
  have hx : x ∈ (tickets log).filter (·.run == n) := by
    rw [← tickets_course, htickets]
    exact List.mem_singleton.mpr rfl
  have hrun : x.run = n := by simpa using (List.mem_filter.mp hx).2
  rw [isDone_course, ← hrun] at hdone
  calc (unfinished log).filter (·.run == n)
      = ((tickets log).filter (·.run == n)).filter fun x => !isDone x.run log := by
        simp only [unfinished, List.filter_filter, Bool.and_comm]
    _ = [x].filter fun x => !isDone x.run log := by rw [← tickets_course, htickets]
    _ = [x] := by simp [hdone]

theorem mem_unfinished {log : Log} {n : Nat} {t : Trigger} {r : Request}
    (haccepted : .accepted n t r ∈ course n log) (hdone : isDone n (course n log) = false) :
    ⟨n, t, r⟩ ∈ unfinished log := by
  rw [isDone_course] at hdone
  refine List.mem_filter.mpr ⟨?_, by simp [hdone]⟩
  exact List.mem_filterMap.mpr ⟨_, (mem_course.mp haccepted).1, rfl⟩

end Log

/-! ## What every log keeps -/

/-- The runs in flight of a log with the number `k`: they are so many, and only the oldest of them
can have been started by the button. -/
structure Flying (log : Log) (k : Nat) : Prop where
  count : (Log.unfinished log).length = k
  exclusive : (Log.unfinished log).Pairwise fun _ later => later.trigger = .accelerator

namespace Flying

variable {log : Log} {k n : Nat} {t : Trigger} {r : Request}

theorem append {more : Log} (h : Flying log k) (htickets : Log.tickets more = [])
    (hdone : ∀ n, Log.isDone n more = false) : Flying (log ++ more) k := by
  constructor
  · rw [Log.unfinished_append htickets hdone]
    exact h.count
  · rw [Log.unfinished_append htickets hdone]
    exact h.exclusive

/-- The button finds nothing in flight, so its run is the oldest; the accelerator's is the
youngest. -/
theorem accept (h : Flying log k) (hdone : Log.isDone n log = false)
    (hfree : k = 0 ∨ t = .accelerator) (es : List Event) :
    Flying (log ++ .accepted n t r :: Log.deeds (some n) es) (k + 1) := by
  constructor
  · rw [Log.unfinished_accept hdone, List.length_append, h.count]
    rfl
  · rw [Log.unfinished_accept hdone, List.pairwise_append]
    refine ⟨h.exclusive, List.pairwise_singleton _ _, ?_⟩
    intro earlier hearlier later hlater
    rw [List.mem_singleton.mp hlater]
    rcases hfree with hzero | haccelerator
    · rw [List.eq_nil_of_length_eq_zero (h.count.trans hzero)] at hearlier
      cases hearlier
    · exact haccelerator

/-- A run in flight is counted. -/
theorem pos (h : Flying log k) (haccepted : .accepted n t r ∈ Log.course n log)
    (hdone : Log.isDone n (Log.course n log) = false) : 0 < k := by
  rw [← h.count]
  exact List.length_pos_of_mem (Log.mem_unfinished haccepted hdone)

/-- Any run in flight can be the next to complete. -/
theorem complete {x : Ticket} (h : Flying log k)
    (htickets : Log.tickets (Log.course n log) = [x])
    (hdone : Log.isDone n (Log.course n log) = false) (name : String) (o : Outcome)
    (es : List Event) :
    Flying (log ++ (Log.deeds (some n) es ++ [.completed n name r o])) (k - 1) := by
  constructor
  · rw [Log.unfinished_complete]
    -- the tickets of run `n` and the others make up the list, and of the first there is one
    have hsplit := List.length_eq_length_filter_add (l := Log.unfinished log) (·.run == n)
    rw [Log.filter_unfinished_eq htickets hdone, h.count] at hsplit
    simp only [bne, List.length_singleton] at hsplit ⊢
    omega
  · rw [Log.unfinished_complete]
    exact h.exclusive.filter _

end Flying

theorem Written.flying {log : Log} {k : Nat} (h : Written log k) : Flying log k := by
  induction h with
  | nil => exact ⟨rfl, .nil⟩
  | ask n name _ _ ih => exact ih.append rfl fun _ => rfl
  | accept r _ hcourse hfree ih =>
      refine ih.accept ?_ hfree _
      rw [← Log.isDone_course, hcourse]
      rfl
  | ignore _ _ _ ih => exact ih.append rfl fun _ => rfl
  | invoke _ _ ih => exact ih.append rfl fun _ => rfl
  | file name rep _ ih => exact ih.append rfl fun _ => rfl
  | @complete log k n name t r rep _ hcourse _ ih =>
      have htickets : Log.tickets (Log.course n log) = [⟨n, t, r⟩] := by rw [hcourse]; rfl
      have hdone : Log.isDone n (Log.course n log) = false := by rw [hcourse]; rfl
      exact ih.complete htickets hdone _ _ _
  | decline _ _ ih => exact ih.append rfl fun _ => rfl
  | clear _ ih => exact ih.append rfl fun _ => rfl

/-! ## The trigger -/

namespace Screen

theorem trigger_announced (screen : Screen) (r : Request) :
    (screen.displayAll r.announced).trigger = some false := by
  cases ho : r.origin <;> simp [Request.announced, ho, displayAll, display]

theorem trigger_shown (screen : Screen) (r : Request) (o : Outcome) :
    (screen.displayAll (Controller.shown r o)).trigger = screen.trigger := by
  cases ho : r.origin with
  | typed code =>
      by_cases hf : o.playground.focusKey = true <;>
        simp [Controller.shown, ho, hf, displayAll, display]
  | file f => simp [Controller.shown, ho, displayAll, display]

theorem trigger_concluded (screen : Screen) (r : Request) (o : Outcome) (left : Nat) :
    (screen.displayAll (r.concluded o left)).trigger =
      if left = 0 then some true else screen.trigger := by
  rw [Request.concluded, displayAll_append]
  by_cases hl : left = 0
  · simp [hl, displayAll, display]
  · simpa [hl, displayAll] using trigger_shown screen r o

end Screen

theorem Written.trigger {log : Log} {k : Nat} (h : Written log k) :
    (Log.screen log).trigger = some (k == 0) := by
  induction h with
  | nil => rfl
  | ask n name _ _ ih => rw [Log.screen_append]; exact ih
  | accept r _ _ _ ih =>
      rw [Log.screen_append]
      exact (congrArg (fun es => (Screen.displayAll _ es).trigger) (Log.events_deeds _ _)).trans
        (Screen.trigger_announced _ _)
  | ignore _ _ _ ih => rw [Log.screen_append]; exact ih
  | invoke _ _ ih => rw [Log.screen_append]; exact ih
  | file name rep _ ih => rw [Log.screen_append]; exact ih
  | @complete log k n name t r rep hwritten hcourse _ ih =>
      -- with `k` at 0 the subtraction would keep it there, and the trigger would be told twice
      have hpos : 0 < k :=
        hwritten.flying.pos (n := n) (t := t) (r := r) (by simp [hcourse]) (by rw [hcourse]; rfl)
      rw [Log.screen_append, Log.events_append, Log.events_deeds, Screen.displayAll_append]
      show (Screen.displayAll _ (r.concluded _ _)).trigger = _
      rw [Screen.trigger_concluded, ih]
      by_cases hlast : k - 1 = 0
      · simp [hlast]
      · have hk : k ≠ 0 := Nat.ne_of_gt hpos
        simp [hlast, hk]
  | decline _ _ ih => rw [Log.screen_append]; exact ih
  | clear _ ih => rw [Log.screen_append]; exact ih

/-! ## The count, the state and the trigger -/

/-- The end of a run that a step makes the controller take note of: the controller as it is then,
the request and the outcome. -/
def Desk.finishing {σ : Type} (d : Desk σ) : Step → Option (Controller σ × Request × Outcome)
  | .poll name =>
    match d.runs.lookup name, d.reports.lookup name with
    | some (.accepted r), some rep | some (.waiting r), some rep =>
      some (d.controller, r, rep.outcome)
    -- the run claims its place first, so the end finds at least this one in flight
    | some (.planned t o f), some rep =>
      if d.controller.accepts t then some (d.controller.claim, .onFile f o, rep.outcome) else none
    | _, _ => none
  | _ => none

namespace Desk

variable {σ : Type} {d : Desk σ}

/-- How a step comes to end a run: a report is on file for a run that has its place, or gets it in
this very step. -/
theorem finishing_cases {s : Step} {c : Controller σ} {r : Request} {o : Outcome}
    (h : d.finishing s = some (c, r, o)) :
    ∃ name rep, s = .poll name ∧ d.reports.lookup name = some rep ∧ o = rep.outcome ∧
      ((c = d.controller ∧ (d.runs.lookup name = some (.accepted r) ∨
          d.runs.lookup name = some (.waiting r))) ∨
        (c = d.controller.claim ∧ ∃ t op f, d.runs.lookup name = some (.planned t op f) ∧
          d.controller.accepts t = true ∧ r = .onFile f op)) := by
  cases s with
  | poll name =>
      simp only [finishing] at h
      split at h
      · obtain ⟨rfl, rfl, rfl⟩ : _ ∧ _ ∧ _ := by simpa using h
        exact ⟨name, _, rfl, by assumption, rfl, .inl ⟨rfl, .inl (by assumption)⟩⟩
      · obtain ⟨rfl, rfl, rfl⟩ : _ ∧ _ ∧ _ := by simpa using h
        exact ⟨name, _, rfl, by assumption, rfl, .inl ⟨rfl, .inr (by assumption)⟩⟩
      · split at h
        · obtain ⟨rfl, rfl, rfl⟩ : _ ∧ _ ∧ _ := by simpa using h
          exact ⟨name, _, rfl, by assumption, rfl,
            .inr ⟨rfl, _, _, _, by assumption, by assumption, rfl⟩⟩
        · cases h
      · cases h
  | _ => cases h

/-- The controller after such a step is the one that takes note of the end. -/
theorem controller_of_finishing (store : Store σ) {s : Step} {c : Controller σ} {r : Request}
    {o : Outcome} (h : d.finishing s = some (c, r, o)) :
    (d.step store s).1.controller = (c.finish r o).1 := by
  obtain ⟨name, rep, rfl, hrep, rfl, ⟨rfl, hrun | hrun⟩ | ⟨rfl, t, op, f, hrun, hc, rfl⟩⟩ :=
    finishing_cases h
  · simp [step, poll, hrun, hrep, Controller.advance, Controller.await]
  · simp [step, poll, hrun, hrep, Controller.advance, Controller.await]
  · simp [step, poll, hrun, hrep, hc, Controller.advance, Controller.await]

/-- No other step answers with an outcome. -/
theorem finishing_of_ready (store : Store σ) {s : Step} {o : Outcome}
    (h : (d.step store s).2.1 = .ready (some o)) : ∃ c r, d.finishing s = some (c, r, o) := by
  cases s with
  | poll name =>
      cases hrun : d.runs.lookup name with
      | none => simp [step, poll, hrun] at h
      | some run =>
          cases hrep : d.reports.lookup name with
          | none =>
              cases run with
              | planned t op f =>
                  by_cases hc : d.controller.accepts t = true <;>
                    simp [step, poll, hrun, hrep, hc, Controller.advance, Controller.await] at h
              | _ => simp [step, poll, hrun, hrep, Controller.advance, Controller.await] at h
          | some rep =>
              cases run with
              | planned t op f =>
                  by_cases hc : d.controller.accepts t = true <;>
                    simp [step, poll, hrun, hrep, hc, Controller.advance, Controller.await] at h
                  simp [finishing, hrun, hrep, hc, h]
              | ignored => simp [step, poll, hrun, Controller.advance] at h
              | _ =>
                  simp [step, poll, hrun, hrep, Controller.advance, Controller.await] at h
                  simp [finishing, hrun, hrep, h]
  | setCredential value =>
      simp only [step] at h
      split at h <;> cases h
  | _ => cases h

end Desk

/-- A controller that takes note of an end has a run in flight. -/
theorem Tracks.inFlight_pos {σ : Type} {l : Ledger σ} (h : Tracks l) {s : Step} {c : Controller σ}
    {r : Request} {o : Outcome} (hf : l.desk.finishing s = some (c, r, o)) : 0 < c.inFlight := by
  obtain ⟨name, rep, rfl, hrep, rfl, ⟨rfl, hrun | hrun⟩ | ⟨rfl, -⟩⟩ := Desk.finishing_cases hf
  · obtain ⟨n, -, t, hcourse⟩ := h.held name _ hrun
    exact h.written.flying.pos (n := n) (t := t) (r := r) (by simp [hcourse]) (by rw [hcourse]; rfl)
  · obtain ⟨n, -, t, hcourse⟩ := h.held name _ hrun
    exact h.written.flying.pos (n := n) (t := t) (r := r) (by simp [hcourse]) (by rw [hcourse]; rfl)
  · exact Nat.succ_pos _

/-- After every sequence of steps the controller's number is that of the runs accepted and not
completed; it is idle exactly when there are none, which is when the trigger was last told that it
is enabled; and it takes note of an end only while a run is in flight, so that the number never
stops at zero instead of going below. -/
theorem inFlight_counts_unfinished {σ : Type} (store : Store σ) (credential : Credential σ)
    (steps : List Step) :
    let l := Ledger.run store credential steps
    l.desk.controller.inFlight = (Log.unfinished l.log).length ∧
      (l.desk.controller.state = .idle ↔ (Log.unfinished l.log).length = 0) ∧
      (∃ enabled, (Log.screen l.log).trigger = some enabled ∧
        (enabled = true ↔ l.desk.controller.inFlight = 0)) ∧
      (∀ s c r o, l.desk.finishing s = some (c, r, o) →
        0 < c.inFlight ∧ (l.desk.step store s).1.controller = (c.finish r o).1) ∧
      ∀ s o, (l.desk.step store s).2.1 = .ready (some o) →
        ∃ c r, l.desk.finishing s = some (c, r, o) := by
  intro l
  have h : Tracks l := tracks_run store credential steps
  have hcount : (Log.unfinished l.log).length = l.desk.controller.inFlight := h.written.flying.count
  refine ⟨hcount.symm, ?_, ⟨_, h.written.trigger, by simp⟩, ?_, ?_⟩
  · rw [hcount, Controller.state]
    by_cases hzero : l.desk.controller.inFlight = 0 <;> simp [hzero]
  · intro s c r o hf
    exact ⟨h.inFlight_pos hf, Desk.controller_of_finishing store hf⟩
  · intro s o hready
    exact Desk.finishing_of_ready store hready

/-- A report that is there before its run first gets to go is taken with the run in flight. -/
theorem inFlight_counts_unfinished_reported :
    let l := Ledger.run memoryStore ⟨"", []⟩
      [.runCode "a" .button "1", .runCode "b" .accelerator "2", .report "b" .blank]
    ∃ c r o, l.desk.finishing (.poll "b") = some (c, r, o) ∧ 0 < c.inFlight := by
  intro l
  have hfinishing : l.desk.finishing (.poll "b") =
      some (⟨⟨"", []⟩, 2⟩, .typed "2" none, Report.blank.outcome) := by decide
  obtain ⟨-, -, -, hpos, -⟩ := inFlight_counts_unfinished memoryStore ⟨"", []⟩ _
  exact ⟨_, _, _, hfinishing, (hpos _ _ _ _ hfinishing).1⟩

end Relay

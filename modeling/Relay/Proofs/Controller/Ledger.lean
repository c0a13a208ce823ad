import Mathlib.Data.List.Induction
import Relay.Controller

/-!
# The ledger of a desk

A desk forgets its runs when they are done, and a name can be used again.  A ledger is a desk
together with a log of all that happened at it, in which every run has a number of its own: the
place of the line by which it was asked for.  The log is written from what the steps answer and
do; it decides nothing, and every effect is in it (`Ledger.effects_added`).

The log is what the laws of the controller are about: which runs are in flight, what became of
each, and what the surface shows are all read off it.
-/

namespace Relay

/-! ## Logs -/

/-- One line of a log. -/
inductive Note where
  /-- A run was asked for under a name. -/
  | asked (run : Nat) (name : String)
  /-- The trigger of a run was accepted. -/
  | accepted (run : Nat) (trigger : Trigger) (request : Request)
  /-- The trigger of a run was disabled. -/
  | ignored (run : Nat) (trigger : Trigger)
  /-- The executor filed a report under a name. -/
  | reported (name : String) (report : Report)
  /-- Something was done, by a run if there is a number. -/
  | did (run : Option Nat) (effect : Effect)
  /-- A run ended with an outcome. -/
  | completed (run : Nat) (name : String) (request : Request) (outcome : Outcome)
  /-- A run ended without one. -/
  | declined (run : Nat)
  /-- The surface was cleared. -/
  | cleared
  deriving DecidableEq, Repr

/-- All that happened at a desk, oldest first. -/
abbrev Log := List Note

namespace Note

/-- The run that a line is about. -/
def run? : Note → Option Nat
  | asked n _ | accepted n _ _ | ignored n _ | completed n _ _ _ | declined n => some n
  | did n _ => n
  | reported _ _ | cleared => none

/-- The line is a stage in the course of run `n`, which what it shows on the surface is not. -/
def marks (n : Nat) : Note → Bool
  | did _ (.surface _) => false
  | m => m.run? == some n

/-- The effect that a line records. -/
def effect? : Note → Option Effect
  | did _ e => some e
  | _ => none

/-- The event that a line records. -/
def event? : Note → Option Event
  | did _ (.surface e) => some e
  | _ => none

/-- The line asks for a run. -/
def isAsked : Note → Bool
  | asked _ _ => true
  | _ => false

/-- The run asked for under a name. -/
def askedUnder? (name : String) : Note → Option Nat
  | asked n other => if other = name then some n else none
  | _ => none

theorem run?_of_marks {n : Nat} {m : Note} (h : m.marks n = true) : m.run? = some n := by
  cases m with
  | did who e =>
      cases e with
      | surface e => exact absurd h (by simp [marks])
      | invoke r => simpa [marks] using h
  | _ => simpa [marks] using h

end Note

namespace Log

/-- The stages of run `n`, in their order. -/
def course (n : Nat) (log : Log) : Log := log.filter (Note.marks n)

/-- The run that was asked for last under a name. -/
def holder (name : String) (log : Log) : Option Nat :=
  (log.filterMap (Note.askedUnder? name)).getLast?

/-- What a line leaves on file under a name, where `report` was. -/
def refile (name : String) (report : Option Report) : Note → Option Report
  | .reported other r => if other = name then some r else report
  | .completed _ other _ _ => if other = name then none else report
  | _ => report

/-- The report on file under a name: the last one, unless a run has taken it. -/
def filed (name : String) (log : Log) : Option Report := log.foldl (refile name) none

/-- The lines of what run `n`, or nobody in particular, did. -/
def deeds (n : Option Nat) (events : List Event) : Log := events.map fun e => .did n (.surface e)

/-- The events of a log. -/
def events (log : Log) : List Event := log.filterMap Note.event?

end Log

/-! ## Ledgers -/

/-- What a run is asked to do; a run whose trigger was disabled has nothing to do. -/
def Run.request? : Run → Option Request
  | ignored => none
  | accepted r | waiting r => some r
  | planned _ o f => some (.onFile f o)

/-- A desk and all that happened at it. -/
structure Ledger (σ : Type) where
  desk : Desk σ
  log : Log

namespace Ledger

variable {σ : Type}

/-- A new desk, at which nothing has happened. -/
def new (credential : Credential σ) : Ledger σ := ⟨.new credential, []⟩

/-- How a run of typed code was taken, read off the run that the desk now holds. -/
def taken (n : Nat) (t : Trigger) : Option Run → Note
  | some (.accepted r) => .accepted n t r
  | _ => .ignored n t

/-- How a run that got to go was taken, if it had not claimed its place before. -/
def claimed (n : Nat) (run : Run) (answer : Answer) : Log :=
  match run with
  | .planned t o f =>
    [if answer = .ready none then .ignored n t else .accepted n t (.onFile f o)]
  | _ => []

/-- How a run ended, if it did. -/
def ended (n : Nat) (name : String) (run : Run) : Answer → Log
  | .ready (some o) => (run.request?.map fun r => .completed n name r o).toList
  | .ready none => [.declined n]
  | _ => []

/-- The lines for a step that led to the desk `d`, with what it answered and did. -/
def lines (l : Ledger σ) (s : Step) (d : Desk σ) (answer : Answer) (effects : List Effect) : Log :=
  match s with
  | .runCode name t _ =>
    -- the desk has just put the run under its name, and so tells how it was taken
    [.asked l.log.length name, taken l.log.length t (d.runs.lookup name)] ++
      effects.map (.did (some l.log.length))
  | .runFile name _ _ _ =>
    .asked l.log.length name :: effects.map (.did (some l.log.length))
  | .poll name =>
    -- the run that gets to go is the one that was under the name before the step
    match Log.holder name l.log, l.desk.runs.lookup name with
    | some n, some run =>
      claimed n run answer ++ effects.map (.did (some n)) ++ ended n name run answer
    | _, _ => effects.map (.did none)
  | .report name r => .reported name r :: effects.map (.did none)
  | .clear => effects.map (.did none) ++ [.cleared]
  | .drop _ | .setCredential _ => effects.map (.did none)

/-- The lines that a step adds. -/
def added (store : Store σ) (l : Ledger σ) (s : Step) : Log :=
  l.lines s (l.desk.step store s).1 (l.desk.step store s).2.1 (l.desk.step store s).2.2

/-- The ledger after a step. -/
def step (store : Store σ) (l : Ledger σ) (s : Step) : Ledger σ :=
  ⟨(l.desk.step store s).1, l.log ++ l.added store s⟩

/-- The ledger after steps in their order. -/
def run (store : Store σ) (credential : Credential σ) (steps : List Step) : Ledger σ :=
  steps.foldl (step store) (new credential)

theorem run_append_one (store : Store σ) (credential : Credential σ) (steps : List Step)
    (s : Step) :
    run store credential (steps ++ [s]) = (run store credential steps).step store s := by
  simp [run]

/-- The desk of a ledger is the desk that the steps lead to. -/
theorem desk_run (store : Store σ) (credential : Credential σ) (steps : List Step) :
    (run store credential steps).desk =
      steps.foldl (fun d s => (d.step store s).1) (Desk.new credential) := by
  induction steps using List.reverseRecOn with
  | nil => rfl
  | append_singleton steps s ih =>
      rw [run_append_one, List.foldl_append, ← ih]
      rfl

end Ledger

/-! ## Names at a desk -/

namespace Desk

variable {α : Type}

@[simp] theorem lookup_without (name other : String) (xs : List (String × α)) :
    (without name xs).lookup other = if other = name then none else xs.lookup other := by
  induction xs with
  | nil => simp [without]
  | cons x xs ih =>
      obtain ⟨key, a⟩ := x
      simp only [without] at ih
      by_cases hk : key = name
      · subst hk
        by_cases ho : other = key
        · simpa [without, ho] using ih
        · have hb : (other == key) = false := beq_eq_false_iff_ne.mpr ho
          simp [without, ih, List.lookup_cons, ho, hb]
      · by_cases ho : other = key
        · simp [without, hk, ho]
        · have hb : (other == key) = false := beq_eq_false_iff_ne.mpr ho
          simp [without, hk, List.lookup_cons, ih, hb]

@[simp] theorem lookup_put (name other : String) (a : α) (xs : List (String × α)) :
    (put name a xs).lookup other = if other = name then some a else xs.lookup other := by
  by_cases ho : other = name
  · simp [put, ho]
  · have hb : (other == name) = false := beq_eq_false_iff_ne.mpr ho
    simp [put, List.lookup_cons, ho, hb]

@[simp] theorem without_put (name : String) (a : α) (xs : List (String × α)) :
    without name (put name a xs) = without name xs := by
  simp [put, without]

@[simp] theorem put_put (name : String) (a b : α) (xs : List (String × α)) :
    put name b (put name a xs) = put name b xs := by
  rw [put, without_put, put]

end Desk

/-! ## What a poll does

A poll of an accepted run is a poll of a waiting one whose request has just gone out, and a first
poll that claims its place is a poll of an accepted run.  So only the waiting run is told twice,
with and without a report on file. -/

/-- What the start of a run does to the surface. -/
def Request.announced (r : Request) : List Event :=
  match r.origin with
  | .typed _ => [.enableTrigger false, .status (.info "running…")]
  | .file f => [.enableTrigger false, .setOutput "", .appendOutput (r.operation.header f)]

/-- What the end of a run does to the surface, where `left` runs stay in flight. -/
def Request.concluded (r : Request) (o : Outcome) (left : Nat) : List Event :=
  Controller.shown r o ++ if left = 0 then [.enableTrigger true] else []

namespace Controller

variable {σ : Type} {c : Controller σ} {t : Trigger}

theorem accepts_iff : c.accepts t = true ↔ c.inFlight = 0 ∨ t = .accelerator := by
  simp [accepts]

theorem not_accepts (h : c.accepts t = false) : c.inFlight ≠ 0 ∧ t = .button := by
  cases t with
  | button => simpa [accepts] using h
  | accelerator => simp [accepts] at h

end Controller

namespace Desk

variable {σ : Type} {d : Desk σ} {name : String}

theorem step_runCode_busy (store : Store σ) {t : Trigger} (hc : d.controller.accepts t = false)
    (code : String) : d.step store (.runCode name t code) =
      ({ d with runs := put name .ignored d.runs }, .nothing, []) := by
  simp [step, Controller.start, hc]

theorem step_runCode (store : Store σ) {t : Trigger} (hc : d.controller.accepts t = true)
    (code : String) : d.step store (.runCode name t code) =
      (⟨d.controller.claim,
        put name (.accepted (.typed code d.controller.credential.header)) d.runs, d.reports⟩,
        .nothing, (Request.typed code d.controller.credential.header).announced.map .surface) := by
  simp only [step, Controller.start, hc, if_true]
  rfl

theorem poll_none (h : d.runs.lookup name = none) : d.poll name = (d, .noSuchRun, []) := by
  simp [poll, h]

theorem poll_ignored (h : d.runs.lookup name = some .ignored) :
    d.poll name = ({ d with runs := without name d.runs }, .ready none, []) := by
  simp [poll, h, Controller.advance]

theorem poll_waiting_none {r : Request} (h : d.runs.lookup name = some (.waiting r))
    (hrep : d.reports.lookup name = none) :
    d.poll name = ({ d with runs := put name (.waiting r) d.runs }, .pending, []) := by
  simp [poll, h, hrep, Controller.advance, Controller.await]

theorem poll_waiting_some {r : Request} {rep : Report}
    (h : d.runs.lookup name = some (.waiting r)) (hrep : d.reports.lookup name = some rep) :
    d.poll name =
      (⟨(d.controller.finish r rep.outcome).1, without name d.runs, without name d.reports⟩,
        .ready (some rep.outcome),
        (r.concluded rep.outcome (d.controller.inFlight - 1)).map .surface) := by
  simp only [poll, h, hrep, Controller.advance, Controller.await]
  rfl

theorem poll_accepted {r : Request} (h : d.runs.lookup name = some (.accepted r)) {next : Desk σ}
    {answer : Answer} {effects : List Effect}
    (hnext : poll { d with runs := put name (.waiting r) d.runs } name = (next, answer, effects)) :
    d.poll name = (next, answer, .invoke r :: effects) := by
  -- the second poll puts or removes the run that the first had put, which leaves no trace
  have hput : (put name (.waiting r) d.runs).lookup name = some (.waiting r) := by simp
  cases hrep : d.reports.lookup name with
  | none =>
      simp only [poll, hput, hrep, Controller.advance, Controller.await, put_put,
        Prod.mk.injEq] at hnext
      obtain ⟨rfl, rfl, rfl⟩ := hnext
      simp only [poll, h, hrep, Controller.advance, Controller.await]
  | some rep =>
      simp only [poll, hput, hrep, Controller.advance, Controller.await, without_put,
        Prod.mk.injEq] at hnext
      obtain ⟨rfl, rfl, rfl⟩ := hnext
      simp only [poll, h, hrep, Controller.advance, Controller.await]

theorem poll_planned_busy {t : Trigger} {o : Operation} {f : SourceFile}
    (h : d.runs.lookup name = some (.planned t o f)) (hc : d.controller.accepts t = false) :
    d.poll name = ({ d with runs := without name d.runs }, .ready none, []) := by
  simp [poll, h, Controller.advance, hc]

theorem poll_planned {t : Trigger} {o : Operation} {f : SourceFile}
    (h : d.runs.lookup name = some (.planned t o f)) (hc : d.controller.accepts t = true)
    {next : Desk σ} {answer : Answer} {effects : List Effect}
    (hnext : poll ⟨d.controller.claim, put name (.accepted (.onFile f o)) d.runs, d.reports⟩ name =
      (next, answer, effects)) :
    d.poll name = (next, answer, (Request.onFile f o).announced.map .surface ++ effects) := by
  have hput : (put name (.accepted (.onFile f o)) d.runs).lookup name =
      some (.accepted (.onFile f o)) := by simp
  cases hrep : d.reports.lookup name with
  | none =>
      simp only [poll, hput, hrep, Controller.advance, Controller.await, put_put,
        Prod.mk.injEq] at hnext
      obtain ⟨rfl, rfl, rfl⟩ := hnext
      simp only [poll, h, hrep, hc, Controller.advance, Controller.await, if_true]
      rfl
  | some rep =>
      simp only [poll, hput, hrep, Controller.advance, Controller.await, without_put,
        Prod.mk.injEq] at hnext
      obtain ⟨rfl, rfl, rfl⟩ := hnext
      simp only [poll, h, hrep, hc, Controller.advance, Controller.await, if_true]
      rfl

/-- A run that has its place is never answered as one whose trigger was disabled. -/
theorem answer_poll_of_accepted {r : Request} (h : d.runs.lookup name = some (.accepted r)) :
    (d.poll name).2.1 ≠ .ready none := by
  cases hrep : d.reports.lookup name with
  | none => simp [poll, h, hrep, Controller.advance, Controller.await]
  | some rep => simp [poll, h, hrep, Controller.advance, Controller.await]

end Desk

/-! ## What lines add to a log -/

namespace Log

@[simp] theorem course_nil (n : Nat) : course n [] = [] := rfl

@[simp] theorem course_cons (n : Nat) (m : Note) (log : Log) :
    course n (m :: log) = if m.marks n then m :: course n log else course n log := List.filter_cons

@[simp] theorem course_append (n : Nat) (log more : Log) :
    course n (log ++ more) = course n log ++ course n more := by
  simp [course]

@[simp] theorem course_deeds (n : Nat) (who : Option Nat) (es : List Event) :
    course n (deeds who es) = [] := by
  simp [course, deeds, Note.marks]

theorem course_eq_nil {n : Nat} {log : Log} (h : ∀ m ∈ log, m.run? ≠ some n) :
    course n log = [] := by
  rw [course, List.filter_eq_nil_iff]
  intro m hm hmark
  exact h m hm (Note.run?_of_marks hmark)

theorem mem_course {n : Nat} {log : Log} {m : Note} :
    m ∈ course n log ↔ m ∈ log ∧ m.marks n = true := List.mem_filter

theorem filterMap_askedUnder (name : String) {log : Log} (h : ∀ m ∈ log, m.isAsked = false) :
    log.filterMap (Note.askedUnder? name) = [] := by
  rw [List.filterMap_eq_nil_iff]
  intro m hm
  cases m with
  | asked n other => exact absurd (h _ hm) (by simp [Note.isAsked])
  | _ => rfl

theorem holder_append_of_not_asked (name : String) {log more : Log}
    (h : ∀ m ∈ more, m.isAsked = false) : holder name (log ++ more) = holder name log := by
  rw [holder, holder, List.filterMap_append, filterMap_askedUnder name h, List.append_nil]

@[simp] theorem holder_asked (name other : String) (n : Nat) (log : Log) :
    holder other (log ++ [.asked n name]) = if other = name then some n else holder other log := by
  by_cases ho : other = name
  · simp [holder, Note.askedUnder?, ho]
  · have hname : ¬ name = other := fun h => ho h.symm
    simp [holder, Note.askedUnder?, ho, hname]

@[simp] theorem filed_append (name : String) (log more : Log) :
    filed name (log ++ more) = more.foldl (refile name) (filed name log) := by
  simp [filed]

@[simp] theorem foldl_refile_deeds (name : String) (r : Option Report) (who : Option Nat)
    (es : List Event) : (deeds who es).foldl (refile name) r = r := by
  induction es with
  | nil => rfl
  | cons e es ih => simpa [deeds, refile] using ih

@[simp] theorem events_append (log more : Log) :
    events (log ++ more) = events log ++ events more := by
  simp [events]

@[simp] theorem events_deeds (who : Option Nat) (es : List Event) : events (deeds who es) = es := by
  induction es with
  | nil => rfl
  | cons e es ih => simpa [deeds, events, Note.event?] using ih

end Log

/-- The lines of a step record exactly what it did, in order. -/
theorem Ledger.effects_added {σ : Type} (store : Store σ) (l : Ledger σ) (s : Step) :
    (l.added store s).filterMap Note.effect? = (l.desk.step store s).2.2 := by
  have hdid : ∀ (who : Option Nat) (es : List Effect),
      (es.map (Note.did who)).filterMap Note.effect? = es := by
    intro who es
    simp [List.filterMap_map, Function.comp_def, Note.effect?]
  have htaken : ∀ n t run, (taken n t run).effect? = none := by
    intro n t run
    unfold taken
    split <;> rfl
  have hclaimed : ∀ n run answer, (claimed n run answer).filterMap Note.effect? = [] := by
    intro n run answer
    cases run with
    | planned t o f => by_cases ha : answer = .ready none <;> simp [claimed, ha, Note.effect?]
    | _ => rfl
  have hended : ∀ n name run answer, (ended n name run answer).filterMap Note.effect? = [] := by
    intro n name run answer
    unfold ended
    split
    · cases run <;> simp [Run.request?, Note.effect?]
    · rfl
    · rfl
  cases s with
  | poll name =>
      simp only [added, lines]
      split
      · simp [hclaimed, hended, hdid]
      · exact hdid _ _
  | runCode name t code =>
      rw [added, lines, List.filterMap_append, hdid, List.filterMap_cons_none rfl,
        List.filterMap_cons_none (htaken _ _ _), List.filterMap_nil, List.nil_append]
  | _ => simp [added, lines, List.filterMap_cons, Note.effect?, hdid]

/-! ## The surface -/

/-- What is on the surface. -/
structure Screen where
  status : Status
  output : String
  /-- The last thing that the trigger was told, if it was told anything. -/
  trigger : Option Bool
  deriving DecidableEq, Repr

namespace Screen

/-- Nothing has been shown. -/
def blank : Screen := ⟨.none, "", none⟩

/-- What an event changes. -/
def display (screen : Screen) : Event → Screen
  | .status s => { screen with status := s }
  | .setOutput text => { screen with output := text }
  | .appendOutput text => { screen with output := screen.output ++ text }
  | .enableTrigger enabled => { screen with trigger := some enabled }
  | .focusKey => screen

/-- What events change, one after the other. -/
def displayAll (screen : Screen) (events : List Event) : Screen := events.foldl display screen

@[simp] theorem displayAll_append (screen : Screen) (es fs : List Event) :
    screen.displayAll (es ++ fs) = (screen.displayAll es).displayAll fs := by
  simp [displayAll]

end Screen

/-- The surface of a new controller after all that a log tells. -/
def Log.screen (log : Log) : Screen :=
  (Screen.blank.displayAll Controller.opening).displayAll (events log)

theorem Log.screen_append (log more : Log) :
    screen (log ++ more) = (screen log).displayAll (events more) := by
  simp [screen]

end Relay

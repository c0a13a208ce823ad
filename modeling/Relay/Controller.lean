import Relay.Credential.Basic
import Relay.Outcome.Classify
import Relay.View

/-!
# The controller

A controller starts runs and shows their outcomes on a surface.  Any number of runs can be in
flight.  The button starts one only when none is; the accelerator always does, and the button is
enabled again when the last run is done.  A run of typed code claims its place when it is asked
for, an operation on a file when it first gets to go.

`Controller.start`, `Controller.advance` and `Controller.finish` are the steps of one run.  A
`Desk` holds the runs under names, so that a sequence of `Step`s is any interleaving of them.
-/

namespace Relay

/-- What starts a run. -/
inductive Trigger where
  /-- The button, which is disabled while something runs. -/
  | button
  /-- The key that goes past the button. -/
  | accelerator
  deriving DecidableEq, Repr, Inhabited

/-- Something that happens to the surface. -/
inductive Event where
  | status (s : Status)
  /-- The output area is replaced. -/
  | setOutput (text : String)
  /-- The output area is extended. -/
  | appendOutput (text : String)
  | enableTrigger (enabled : Bool)
  /-- The user is led to enter a key. -/
  | focusKey
  deriving DecidableEq, Repr

/-- Something that a step does outside the controller. -/
inductive Effect where
  | surface (e : Event)
  /-- A request goes to the executor. -/
  | invoke (r : Request)
  deriving DecidableEq, Repr

/-- Runs are in flight or not. -/
inductive ControllerState where
  | idle
  | running
  deriving DecidableEq, Repr

/-- The key in use and the number of runs in flight. -/
structure Controller (σ : Type) where
  credential : Credential σ
  inFlight : Nat
  deriving DecidableEq, Repr

/-- A run that has been asked for and is not done. -/
inductive Run where
  /-- Typed code whose trigger was disabled. -/
  | ignored
  /-- Typed code that has its place. -/
  | accepted (request : Request)
  /-- An operation on a file that has not claimed its place. -/
  | planned (trigger : Trigger) (operation : Operation) (file : SourceFile)
  /-- The executor has the request. -/
  | waiting (request : Request)
  deriving DecidableEq, Repr

/-- Where a run stands after it got to go. -/
inductive Progress where
  | pending (run : Run)
  /-- The run is done; a run whose trigger was disabled has no outcome. -/
  | done (outcome : Option Outcome)
  deriving DecidableEq, Repr

namespace Controller

variable {σ : Type}

/-- A controller with nothing in flight. -/
def new (credential : Credential σ) : Controller σ := ⟨credential, 0⟩

/-- What a new controller does to the surface. -/
def opening : List Event := [.enableTrigger true]

/-- Whether anything is in flight. -/
def state (c : Controller σ) : ControllerState := if c.inFlight = 0 then .idle else .running

/-- A trigger starts a run. -/
def accepts (c : Controller σ) (t : Trigger) : Bool := c.inFlight == 0 || t == .accelerator

/-- One more run is in flight. -/
def claim (c : Controller σ) : Controller σ := { c with inFlight := c.inFlight + 1 }

/-- Asks for a run of typed code.  It carries the key in use at this moment. -/
def start (c : Controller σ) (t : Trigger) (code : String) : Controller σ × Run × List Event :=
  if c.accepts t then
    (c.claim, .accepted (.typed code c.credential.header),
      [.enableTrigger false, .status (.info "running…")])
  else (c, .ignored, [])

/-- What a request's outcome does to the surface. -/
def shown (r : Request) (o : Outcome) : List Event :=
  match r.origin with
  | .typed _ =>
    [.status o.playground.status, .setOutput o.playground.output] ++
      (if o.playground.focusKey then [.focusKey] else [])
  | .file f =>
    [.appendOutput (o.editor r.operation f).output, .status (o.editor r.operation f).status]

/-- A run is done. -/
def finish (c : Controller σ) (r : Request) (o : Outcome) : Controller σ × List Event :=
  let c := { c with inFlight := c.inFlight - 1 }
  (c, shown r o ++ (if c.inFlight = 0 then [.enableTrigger true] else []))

/-- A run waits for the executor's report, or is done if there is one. -/
def await (c : Controller σ) (r : Request) (report : Option Report) :
    Controller σ × Progress × List Effect :=
  match report with
  | none => (c, .pending (.waiting r), [])
  | some report =>
    let (c, events) := c.finish r report.outcome
    (c, .done (some report.outcome), events.map .surface)

/-- A run gets to go; `report` is what the executor has to say by now. -/
def advance (c : Controller σ) (run : Run) (report : Option Report) :
    Controller σ × Progress × List Effect :=
  match run with
  | .ignored => (c, .done none, [])
  | .accepted r =>
    let (c, progress, effects) := c.await r report
    (c, progress, .invoke r :: effects)
  | .planned t o f =>
    if c.accepts t then
      let r := Request.onFile f o
      let (c, progress, effects) := c.claim.await r report
      (c, progress,
        [.surface (.enableTrigger false), .surface (.setOutput ""),
          .surface (.appendOutput (o.header f)), .invoke r] ++ effects)
    else (c, .done none, [])
  | .waiting r => c.await r report

/-- Clears the surface; what is in flight goes on. -/
def clear : List Event := [.setOutput "", .status .none]

/-- Uses and stores a key. -/
def setCredential (store : Store σ) (c : Controller σ) (value : String) :
    Controller σ × Except StoreError Unit :=
  let (credential, r) := c.credential.set store value
  ({ c with credential }, r)

end Controller

/-! ## Many runs -/

/-- A controller with its runs, and the executor's reports that no run has taken yet. -/
structure Desk (σ : Type) where
  controller : Controller σ
  runs : List (String × Run)
  reports : List (String × Report)
  deriving DecidableEq, Repr

/-- One thing that happens at a desk. -/
inductive Step where
  | runCode (id : String) (trigger : Trigger) (code : String)
  | runFile (id : String) (trigger : Trigger) (operation : Operation) (file : SourceFile)
  /-- A run gets to go. -/
  | poll (id : String)
  /-- The executor reports on a run. -/
  | report (id : String) (report : Report)
  /-- A run is given up. -/
  | drop (id : String)
  | clear
  | setCredential (value : String)
  deriving DecidableEq, Repr

/-- What a step answers. -/
inductive Answer where
  | nothing
  | noSuchRun
  | pending
  | ready (outcome : Option Outcome)
  | dropped (existed : Bool)
  | refused (error : StoreError)
  deriving DecidableEq, Repr

namespace Desk

variable {σ : Type}

/-- A desk with a new controller. -/
def new (credential : Credential σ) : Desk σ := ⟨.new credential, [], []⟩

/-- The list without what is under a name. -/
def without {α : Type} (id : String) (xs : List (String × α)) : List (String × α) :=
  xs.filter (·.1 != id)

/-- The list with something put under a name. -/
def put {α : Type} (id : String) (a : α) (xs : List (String × α)) : List (String × α) :=
  (id, a) :: without id xs

/-- Lets a run go, if there is one under the name.  A run that awaits its report takes it. -/
def poll (d : Desk σ) (id : String) : Desk σ × Answer × List Effect :=
  match d.runs.lookup id with
  | none => (d, .noSuchRun, [])
  | some run =>
    match d.controller.advance run (d.reports.lookup id) with
    | (c, .pending run, effects) => (⟨c, put id run d.runs, d.reports⟩, .pending, effects)
    | (c, .done (some o), effects) =>
      (⟨c, without id d.runs, without id d.reports⟩, .ready (some o), effects)
    | (c, .done none, effects) => (⟨c, without id d.runs, d.reports⟩, .ready none, effects)

/-- The desk after a step, what the step answers, and what it does. -/
def step (store : Store σ) (d : Desk σ) : Step → Desk σ × Answer × List Effect
  | .runCode id t code =>
    let (c, run, events) := d.controller.start t code
    ({ d with controller := c, runs := put id run d.runs }, .nothing, events.map .surface)
  | .runFile id t o f => ({ d with runs := put id (.planned t o f) d.runs }, .nothing, [])
  | .poll id => d.poll id
  | .report id r => ({ d with reports := put id r d.reports }, .nothing, [])
  | .drop id =>
    ({ d with runs := without id d.runs }, .dropped (d.runs.lookup id).isSome, [])
  | .clear => (d, .nothing, Controller.clear.map .surface)
  | .setCredential value =>
    let (c, r) := d.controller.setCredential store value
    ({ d with controller := c },
      match r with
      | .ok _ => .nothing
      | .error e => .refused e, [])

end Desk

end Relay

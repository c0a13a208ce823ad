import Relay.Console
import Relay.Samples
import Relay.Session.Input

/-!
# Sessions

A session holds a program that grows line by line, and runs it when asked.  Lines and the reports
on runs come in any order; `Session.step` takes one of them.  After the line that quits no line
counts any more, but what is in flight is still shown.
-/

namespace Relay

/-- A session over a store with states of type `σ`. -/
structure Session (σ : Type) where
  program : String
  controller : Controller σ
  /-- The runs that are not done, each under its number, oldest first. -/
  runs : List (Nat × Run)
  /-- The number of the next run. -/
  next : Nat
  /-- No more lines are taken. -/
  ended : Bool
  deriving DecidableEq, Repr

namespace Session

variable {σ : Type}

/-- One thing that happens to a session. -/
inductive Step where
  | line (text : String)
  /-- There are no more lines. -/
  | ended
  /-- A run gets to go; `report` is what the executor has to say by now. -/
  | poll (run : Nat) (report : Option Report)
  deriving DecidableEq, Repr

/-- Something that a step does outside the session. -/
inductive Deed where
  | write (line : Line)
  /-- A run's request goes to the executor. -/
  | invoke (run : Nat) (request : Request)
  deriving DecidableEq, Repr

/-- A session with the program that every session starts with. -/
def new (credential : Credential σ) : Session σ :=
  ⟨defaultCode, .new credential, [], 0, false⟩

/-- Writes a line of its own. -/
def say (text : String) : List Deed := [.write (.out (text ++ "\n"))]

/-- Shows events on the console. -/
def showEvents (events : List Event) : List Deed :=
  (ConsoleStyle.playground.shownAll events).map .write

/-- The session after a run was asked for. -/
def startRun (s : Session σ) (t : Trigger) : Session σ × List Deed :=
  let (controller, run, events) := s.controller.start t s.program
  ({ s with controller, runs := s.runs ++ [(s.next, run)], next := s.next + 1 },
    (if Text.allBlank s.program then say "[empty program]" else []) ++ showEvents events)

/-- The session after a key was entered. -/
def setKey (store : Store σ) (s : Session σ) (value : String) : Session σ × List Deed :=
  let (controller, r) := s.controller.setCredential store value
  ({ s with controller },
    match r with
    | .ok _ => say (if value = "" then "[key cleared]" else "[key saved]")
    | .error e => [.write (.err ("[error] Failed to store key: " ++ e.message ++ "\n"))])

/-- The session after a sample was asked for. -/
def useSample (s : Session σ) (name : String) : Session σ × List Deed :=
  match findSample? name with
  | some code => ({ s with program := code }, [.write (.out code)])
  | none => (s, say ("[unknown sample] " ++ Text.trim name))

/-- The session after a line. -/
def takeInput (store : Store σ) (s : Session σ) : Input → Session σ × List Deed
  | .run t => s.startRun t
  | .clear => (s, showEvents Controller.clear)
  | .reset => ({ s with program := "" }, [])
  | .key value => s.setKey store value
  | .sample name => s.useSample name
  | .samples => (s, samples.flatMap fun sample => say ("  " ++ sample.name))
  | .print => (s, [.write (.out s.program)])
  | .quit => ({ s with ended := true }, [])
  | .line text => ({ s with program := s.program ++ text ++ "\n" }, [])

/-- What is said about a run whose trigger was disabled. -/
def busy : List Deed := say "[busy] A run is in flight; :r runs alongside it."

/-- What a run's effects do. -/
def deeds (run : Nat) (effects : List Effect) : List Deed :=
  effects.flatMap fun
    | .surface e => showEvents [e]
    | .invoke r => [.invoke run r]

/-- The session after a run got to go. -/
def poll (s : Session σ) (n : Nat) (report : Option Report) : Session σ × List Deed :=
  match s.runs.lookup n with
  | none => (s, [])
  | some run =>
    let others := s.runs.filter (·.1 != n)
    match s.controller.advance run report with
    | (controller, .pending run, effects) =>
      let runs := s.runs.map fun (m, r) => if m = n then (m, run) else (m, r)
      ({ s with controller, runs }, deeds n effects)
    | (controller, .done (some _), effects) =>
      ({ s with controller, runs := others }, deeds n effects)
    | (controller, .done none, effects) =>
      ({ s with controller, runs := others },
        deeds n effects ++ if s.ended then [] else busy)

/-- The session after a step, and what the step does. -/
def step (store : Store σ) (s : Session σ) : Step → Session σ × List Deed
  | .line text => if s.ended then (s, []) else s.takeInput store (.parse text)
  | .ended => ({ s with ended := true }, [])
  | .poll n report => s.poll n report

/-- The session is over: no line counts and nothing is in flight. -/
def isOver (s : Session σ) : Bool := s.ended && s.runs.isEmpty

end Session

end Relay

import Relay.Tool.Capture
import Relay.Tool.Command

/-!
# Errands

The local executor asks two things of its surroundings: whether there is a file at a path, and to
start a program.  An `Errand` is a computation that asks them, one after the other, and goes on
with the answers.  `Errand.run` answers them from a `Surroundings`, and keeps what was asked.

What is seen of a program that was started is a list of signals in any order that a process can
bring about: a stream has one end, with nothing after it, and so has the process.
-/

namespace Relay

open Files (Failure)

namespace Signal

/-- The stream that a signal tells of. -/
def stream? : Signal → Option Stream
  | .read s _ | .closed s | .readFailed s _ => some s
  | .ended _ | .waitFailed _ | .timeout => none

/-- The stream that a signal is the last of. -/
def endsStream? : Signal → Option Stream
  | .closed s | .readFailed s _ => some s
  | .read _ _ | .ended _ | .waitFailed _ | .timeout => none

/-- A signal tells of the end of the process. -/
def endsProcess : Signal → Bool
  | .ended _ | .waitFailed _ => true
  | .read _ _ | .closed _ | .readFailed _ _ | .timeout => false

/-- The second signal cannot come after the first. -/
def bars (x y : Signal) : Bool :=
  (x.endsStream?.isSome && x.endsStream? == y.stream?) || (x.endsProcess && y.endsProcess)

end Signal

/-- What is seen of a process. -/
structure Observation where
  signals : List Signal
  orderly : signals.Pairwise fun x y => x.bars y = false

/-- A computation that asks its surroundings. -/
inductive Errand (α : Type) where
  | done (result : α)
  /-- Is there a file at a path? -/
  | probe (path : Path) (next : Bool → Errand α)
  /-- Starts a program, which may fail, and watches it. -/
  | spawn (command : Command) (next : Except Failure Observation → Errand α)

/-- Something that an errand asks. -/
inductive Query where
  | probe (path : Path)
  | spawn (command : Command)
  deriving DecidableEq, Repr

/-- A program is started. -/
def Query.isSpawn : Query → Bool
  | .probe _ => false
  | .spawn _ => true

/-- What answers an errand; a program that is started may change it. -/
structure Surroundings (σ : Type) where
  isFile : σ → Path → Bool
  spawn : σ → Command → Except Failure (Observation × σ)

/-- What an errand came to: its result, its surroundings then, and what it asked, in order. -/
structure Trip (σ α : Type) where
  result : α
  state : σ
  asked : List Query

/-- The trip with a question in front. -/
def Trip.after {σ α : Type} (q : Query) (t : Trip σ α) : Trip σ α :=
  { t with asked := q :: t.asked }

namespace Errand

variable {σ α β : Type}

/-- The errand with something made of its result. -/
def map (f : α → β) : Errand α → Errand β
  | done result => done (f result)
  | probe path next => probe path fun found => (next found).map f
  | spawn command next => spawn command fun seen => (next seen).map f

/-- Carries an errand out. -/
def run (around : Surroundings σ) (s : σ) : Errand α → Trip σ α
  | done result => ⟨result, s, []⟩
  | probe path next => (run around s (next (around.isFile s path))).after (.probe path)
  | spawn command next =>
    match around.spawn s command with
    | .error failure => (run around s (next (.error failure))).after (.spawn command)
    | .ok (seen, s) => (run around s (next (.ok seen))).after (.spawn command)

/-- Probes candidates in their order up to the first that is a file. -/
def search (next : Option Candidate → Errand α) : List Candidate → Errand α
  | [] => next none
  | c :: cs => probe c.path fun found => if found then next (some c) else search next cs

end Errand

end Relay

import Relay.Files.Failure
import Relay.Report

/-!
# Watching a process

A process writes to two streams until it closes them, and ends.  What it writes is kept up to a
limit for each stream; the first octet beyond stops the reading, and the process is killed.  The
watch is a state that signals change one by one, in whatever order they arrive, so every
interleaving is a list of signals.
-/

namespace Relay

open Files (Failure)

/-- What a process writes to. -/
inductive Stream where
  | out
  | err
  deriving DecidableEq, Repr, Inhabited

/-- What is kept of a stream after one more read, and whether that went over the limit. -/
def capture (limit : Nat) (kept read : Bytes) : Bytes × Bool :=
  let room := limit - kept.length
  if room < read.length then (kept ++ read.take room, true) else (kept ++ read, false)

/-- Something that the watch sees. -/
inductive Signal where
  | read (s : Stream) (octets : Bytes)
  | closed (s : Stream)
  | readFailed (s : Stream) (failure : Failure)
  /-- The process ended, with a code unless a signal killed it. -/
  | ended (code : Option Int)
  | waitFailed (failure : Failure)
  | timeout
  deriving DecidableEq, Repr

/-- How a watch ends. -/
inductive WatchEnd where
  | ended (code : Option Int)
  | failed (failure : Failure)
  | timedOut
  deriving DecidableEq, Repr

/-- What a watch knows of one stream. -/
structure Kept where
  octets : Bytes
  closed : Bool
  deriving DecidableEq, Repr

/-- The state of a watch. -/
structure Watch where
  out : Kept
  err : Kept
  /-- A stream went over the limit. -/
  overflow : Bool
  /-- The process is known to have ended. -/
  process : Option (Option Int)
  /-- How the watch ended. -/
  result : Option WatchEnd
  deriving DecidableEq, Repr

namespace Watch

/-- Nothing has been seen. -/
def start : Watch := ⟨⟨[], false⟩, ⟨[], false⟩, false, none, none⟩

/-- What is known of a stream. -/
def stream (w : Watch) : Stream → Kept
  | .out => w.out
  | .err => w.err

/-- The watch with new knowledge of a stream. -/
def setStream (w : Watch) (s : Stream) (k : Kept) : Watch :=
  match s with
  | .out => { w with out := k }
  | .err => { w with err := k }

/-- Streams are still read: none is over the limit and one at least is open. -/
def reading (w : Watch) : Bool := !w.overflow && !(w.out.closed && w.err.closed)

/-- Ends the watch when the streams are done and the process has ended. -/
def settle (w : Watch) : Watch :=
  match w.reading, w.process with
  | false, some code => { w with result := some (.ended code) }
  | _, _ => w

/-- What a signal changes while the watch goes on. -/
def receive (limit : Nat) (w : Watch) : Signal → Watch
  | .read s octets =>
    if w.reading && !(w.stream s).closed then
      let (kept, exceeded) := capture limit (w.stream s).octets octets
      { w.setStream s ⟨kept, exceeded⟩ with overflow := exceeded }
    else w
  | .closed s =>
    if w.reading then w.setStream s { w.stream s with closed := true } else w
  | .readFailed s failure =>
    if w.reading && !(w.stream s).closed then { w with result := some (.failed failure) } else w
  | .ended code => { w with process := some code }
  | .waitFailed failure =>
    if w.reading then w else { w with result := some (.failed failure) }
  | .timeout => { w with result := some .timedOut }

/-- The watch after a signal.  Once it has ended, nothing changes it. -/
def step (limit : Nat) (w : Watch) (signal : Signal) : Watch :=
  match w.result with
  | some _ => w
  | none =>
    let w := w.receive limit signal
    match w.result with
    | some _ => w
    | none => w.settle

/-- The watch after signals in their order. -/
def run (limit : Nat) (signals : List Signal) : Watch := signals.foldl (step limit) start

/-- The text of a failure while waiting. -/
def waitError (failure : Failure) : String :=
  "Failed while waiting for the tool: " ++ failure.message

/-- What an ended watch reports; `timeout` is the time limit. -/
def report (w : Watch) (timeout : Duration) : Option Report :=
  w.result.map fun
    | .ended (some code) => .process (.exit code) w.out.octets w.err.octets w.overflow
    | .ended none => .process .signalled w.out.octets w.err.octets w.overflow
    | .failed failure =>
      { Report.process .signalled w.out.octets w.err.octets w.overflow with
        transportError := some (waitError failure) }
    | .timedOut => .process (.timedOut timeout) w.out.octets w.err.octets w.overflow

end Watch

end Relay

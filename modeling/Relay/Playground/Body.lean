import Relay.Bytes

/-!
# Reading an answer

The body of an answer arrives in chunks until it ends or the connection breaks.  It is kept up to
a limit; the chunk that goes beyond the limit ends the reading.
-/

namespace Relay

/-- What arrives of a body. -/
inductive Arrival where
  | chunk (octets : Bytes)
  | ended
  | broken
  deriving DecidableEq, Repr

/-- How the reading of a body stands. -/
inductive BodyState where
  | reading (kept : Bytes)
  | complete (body : Bytes)
  | tooLarge
  | broken
  deriving DecidableEq, Repr

namespace BodyState

/-- Nothing has arrived. -/
def start : BodyState := reading []

/-- The state after an arrival; nothing changes an end. -/
def step (limit : Nat) (s : BodyState) (a : Arrival) : BodyState :=
  match s, a with
  | .reading kept, .chunk octets =>
    if limit < kept.length + octets.length then .tooLarge else .reading (kept ++ octets)
  | .reading kept, .ended => .complete kept
  | .reading _, .broken => .broken
  | s, _ => s

/-- The state after arrivals in their order. -/
def run (limit : Nat) (arrivals : List Arrival) : BodyState := arrivals.foldl (step limit) start

end BodyState

end Relay

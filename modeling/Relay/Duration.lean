import Relay.Decimal.Shortest

/-!
# Durations

A span of time in whole seconds and nanoseconds.  It is shown as the binary64 number of its
seconds, in the fewest digits that read back.
-/

namespace Relay

/-- A span of time. -/
structure Duration where
  seconds : Nat
  nanos : Nat
  deriving DecidableEq, Repr, Inhabited

namespace Duration

/-- A span of whole seconds. -/
def ofSeconds (n : Nat) : Duration := ⟨n, 0⟩

/-- The number of seconds. -/
def value (d : Duration) : Decimal.Binary64 :=
  (Decimal.Binary64.ofRatio d.seconds 1).add (Decimal.Binary64.ofRatio d.nanos 1000000000)

/-- The number of seconds as text. -/
def text (d : Duration) : String := d.value.shortest.positional

end Duration

end Relay

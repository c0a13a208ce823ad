import Relay.Credential.Store
import Relay.Request

/-!
# Credentials

The key for the playground: a value in use, and a slot in a store that it is loaded from and saved
to.  Setting the value changes it at once, whether or not the store takes it.
-/

namespace Relay

/-- The name under which the key is stored. -/
def keySlot : String := "jatti.apiKey"

/-- A key in use, over a store's state. -/
structure Credential (σ : Type) where
  value : String
  state : σ
  deriving DecidableEq, Repr

namespace Credential

variable {σ : Type}

/-- The key that the store holds; none at all when it holds none or cannot tell. -/
def load (store : Store σ) (state : σ) : Credential σ :=
  match store.load state keySlot with
  | .ok value => ⟨value.getD "", state⟩
  | .error _ => ⟨"", state⟩

/-- Uses a value and stores it; the empty value empties the slot. -/
def set (store : Store σ) (c : Credential σ) (value : String) :
    Credential σ × Except StoreError Unit :=
  let r := if value = "" then store.remove c.state keySlot else store.save c.state keySlot value
  match r with
  | .ok state => (⟨value, state⟩, .ok ())
  | .error e => (⟨value, c.state⟩, .error e)

/-- Uses a value and stores nothing. -/
def setForSession (c : Credential σ) (value : String) : Credential σ := { c with value }

/-- The key that goes with a request. -/
def header (c : Credential σ) : Option String := keyHeader c.value

/-- The credential as text, which tells only whether there is a value. -/
def shown (c : Credential σ) : String :=
  "Credential \x7b present: " ++ (if c.value = "" then "false" else "true") ++ " \x7d"

end Credential

end Relay

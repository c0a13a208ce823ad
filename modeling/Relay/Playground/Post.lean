import Relay.Json.Writer
import Relay.Url.Parse

/-!
# Requests to a playground

A program is sent to a playground as a `POST` of a JSON body, with the key in a header of its own.
Not every address and key can be sent: the address has to name a host that is reached by HTTP, and
a key may hold no control character but the tab.  A user in the address is taken out of it.
-/

namespace Relay

/-- A request, ready to be sent. -/
structure Post where
  address : Url.Address
  key : Option String
  body : String
  deriving DecidableEq, Repr

/-- Why a request got no answer. -/
inductive NetworkError where
  /-- The address or the key cannot be read. -/
  | unusable
  /-- Nothing can be sent to this address. -/
  | unsendable (address : Url.Address)
  /-- Nobody answers at this address. -/
  | unanswered (address : Url.Address)
  /-- The answer ends too early. -/
  | cutShort
  deriving DecidableEq, Repr

/-- An address as it stands in a message. -/
def Url.Address.shown (a : Url.Address) : String := " for url (" ++ a.text ++ ")"

/-- The text shown for the error. -/
def NetworkError.message : NetworkError → String
  | unusable => "builder error"
  | unsendable address => "builder error" ++ address.shown
  | unanswered address => "error sending request" ++ address.shown
  | cutShort => "error decoding response body"

namespace Url

/-- A text that its percent-encoded form stands for. -/
def plainText? (cs : List Char) : Option String := Utf8.decode? (percentDecode cs)

/-- The address without its user.  A user whose name is no text stays. -/
def Address.withoutUser (a : Address) : Address :=
  match a.user with
  | none => a
  | some u =>
    match plainText? u.name with
    | none => a
    | some name =>
      let password := u.password.bind plainText?
      if name = "" ∧ password = none then a else { a with user := none }

/-- The address is reached by HTTP. -/
def Address.isHttp (a : Address) : Bool :=
  a.scheme == "http".toList || a.scheme == "https".toList

/-- The host can stand in a request. -/
def Host.isSendable : Host → Bool
  | domain name => !name.any fun c => c == '"' || c == '{' || c == '}' || c.toNat == 0x60
  | _ => true

end Url

/-- The key may stand in a header. -/
def isSendableKey (key : String) : Bool := key.toList.all fun c => c == '\t' || !Url.isControl c

/-- The request that sends a program to an address. -/
def Post.build (address code : String) (key : Option String) : Except NetworkError Post :=
  match Url.parse? address with
  | none => .error .unusable
  | some a =>
    match a.host with
    | none => .error (.unsendable a)
    | some host =>
      let a := a.withoutUser
      if !(key.all isSendableKey) then .error .unusable
      else if !(a.isHttp && host.isSendable) then .error (.unsendable a)
      else .ok ⟨a, key, Json.runBody code⟩

end Relay

import Relay.Text.Numeral
import Relay.Text.Utf8

/-!
# Percent-encoding

A character that may not stand for itself in a part of an address is written as its octets, each
after a `%` in two capital hexadecimal digits.  Which characters those are depends on the part;
none outside ASCII ever stands for itself.
-/

namespace Relay.Url

/-- The control characters of ASCII. -/
def isControl (c : Char) : Bool := c.toNat < 0x20 || c.toNat == 0x7F

/-- What is encoded in a fragment. -/
def encodedInFragment (c : Char) : Bool :=
  isControl c || c == ' ' || c == '"' || c == '<' || c == '>' || c.toNat == 0x60

/-- What is encoded in a path. -/
def encodedInPath (c : Char) : Bool :=
  encodedInFragment c || c == '#' || c == '?' || c == '{' || c == '}'

/-- What is encoded in the name and the password of a user. -/
def encodedInUser (c : Char) : Bool :=
  encodedInPath c || c == '/' || c == ':' || c == ';' || c == '=' || c == '@' || c == '[' ||
    c == '\\' || c == ']' || c == '^' || c == '|'

/-- What is encoded in a query. -/
def encodedInQuery (quote : Bool) (c : Char) : Bool :=
  isControl c || c == ' ' || c == '"' || c == '#' || c == '<' || c == '>' || (quote && c == '\'')

/-- A capital hexadecimal digit. -/
def upperHexDigit (n : Nat) : Char := (Bytes.hexDigit n).toUpper

/-- An octet in its encoded form. -/
def percentOctet (b : UInt8) : List Char :=
  ['%', upperHexDigit (b.toNat / 16), upperHexDigit (b.toNat % 16)]

/-- A character, encoded unless it may stand for itself. -/
def percentChar (encoded : Char → Bool) (c : Char) : List Char :=
  if c.toNat ≥ 0x80 || encoded c then (String.utf8EncodeChar c).flatMap percentOctet else [c]

/-- A text with the characters encoded that may not stand for themselves. -/
def percentEncode (encoded : Char → Bool) (cs : List Char) : List Char :=
  cs.flatMap (percentChar encoded)

/-- The octets of a text whose encoded octets are read back; a `%` without two digits stands for
itself. -/
def percentDecode : List Char → Bytes
  | [] => []
  | '%' :: a :: b :: cs =>
    match Numeral.hexDigit? a, Numeral.hexDigit? b with
    | some x, some y => UInt8.ofNat (x * 16 + y) :: percentDecode cs
    | _, _ => Bytes.ascii '%' :: percentDecode (a :: b :: cs)
  | c :: cs => String.utf8EncodeChar c ++ percentDecode cs
termination_by cs => cs.length

end Relay.Url

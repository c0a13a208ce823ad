/-!
# Numerals

Numbers as text.  A counting setting is a 64-bit word, written in ASCII digits with at most one
plus sign before them; leading zeros do not matter, and a value of 2^64 or more is refused.
-/

namespace Relay.Numeral

/-- The value of an ASCII digit. -/
def digit? (c : Char) : Option Nat :=
  if '0' ≤ c ∧ c ≤ '9' then some (c.toNat - 0x30) else none

/-- The value of a hexadecimal digit, in either case. -/
def hexDigit? (c : Char) : Option Nat :=
  if '0' ≤ c ∧ c ≤ '9' then some (c.toNat - 0x30)
  else if 'a' ≤ c ∧ c ≤ 'f' then some (c.toNat - 0x61 + 10)
  else if 'A' ≤ c ∧ c ≤ 'F' then some (c.toNat - 0x41 + 10)
  else none

/-- The number that the digits continue from `acc`. -/
def digitsFrom? (acc : Nat) : List Char → Option Nat
  | [] => some acc
  | c :: cs => (digit? c).bind fun d => digitsFrom? (acc * 10 + d) cs

/-- The number of a nonempty sequence of digits. -/
def digits? : List Char → Option Nat
  | [] => none
  | cs => digitsFrom? 0 cs

/-- The least number that is not a 64-bit word, 2^64. -/
def wordLimit : Nat := 18446744073709551616

/-- The number, if it is a 64-bit word. -/
def toWord? (n : Nat) : Option UInt64 := if n < wordLimit then some n.toUInt64 else none

/-- The 64-bit word of a numeral: an optional plus sign, then digits. -/
def wordChars? : List Char → Option UInt64
  | '+' :: cs => (digits? cs).bind toWord?
  | cs => (digits? cs).bind toWord?

/-- The 64-bit word that a text writes. -/
def word? (s : String) : Option UInt64 := wordChars? s.toList

/-- The digits of a number, most significant first. -/
def decimal (n : Nat) : String := String.ofList (Nat.toDigits 10 n)

/-- An integer in digits, with a sign when it is negative. -/
def signed (z : Int) : String :=
  match z with
  | .ofNat n => decimal n
  | .negSucc n => "-" ++ decimal (n + 1)

end Relay.Numeral

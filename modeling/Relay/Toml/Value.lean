import Relay.Decimal.Binary64

/-!
# TOML values

A document is a tree of tables.  A table remembers how it came to be, since that decides what may
still be added to it: only by a header, only by dotted keys, or not at all.
-/

namespace Relay.Toml

/-- How a table came to be. -/
inductive Making where
  /-- A longer header went through it. -/
  | implied
  /-- A dotted key went through it. -/
  | dotted
  /-- A header of its own opened it. -/
  | headed
  /-- It was written between braces, and is complete. -/
  | inline
  deriving DecidableEq, Repr, Inhabited

/-- A value. -/
inductive Value where
  | text (s : String)
  | integer (n : Int)
  /-- The number `digits · 10 ^ exponent`, up to its sign. -/
  | float (digits : Nat) (exponent : Int)
  /-- An infinity, or no number at all. -/
  | special
  | boolean (b : Bool)
  /-- A date, a time, or both. -/
  | moment
  /-- An array written between brackets. -/
  | array (elements : List Value)
  /-- The tables that headers in double brackets opened, last first. -/
  | tables (elements : List (List (String × Value)))
  | table (making : Making) (members : List (String × Value))
  deriving Inhabited

/-- The members of a table. -/
abbrev Members := List (String × Value)

/-- The value of a name. -/
def Members.get? (name : String) : Members → Option Value
  | [] => none
  | (n, v) :: ms => if n = name then some v else Members.get? name ms

/-- The members with `name` set to `value`, in its old place if it has one. -/
def Members.set (name : String) (value : Value) : Members → Members
  | [] => [(name, value)]
  | (n, v) :: ms => if n = name then (name, value) :: ms else (n, v) :: Members.set name value ms

/-- An integer that a 128-bit word can hold, signed or not. -/
def integerFits (n : Int) : Bool := decide (-170141183460469231731687303715884105728 ≤ n) &&
  decide (n < 340282366920938463463374607431768211456)

/-- A decimal within the binary64 numbers.  Sizes far from the limit are told by counting digits. -/
def floatFits (digits : Nat) (exponent : Int) : Bool :=
  let size : Int := (Nat.toDigits 10 digits).length + exponent
  if digits = 0 ∨ size < 300 then true
  else if 320 < size then false
  else
    let x :=
      if 0 ≤ exponent then Decimal.Binary64.ofRatio (digits * Nat.pow 10 exponent.toNat) 1
      else Decimal.Binary64.ofRatio digits (Nat.pow 10 (-exponent).toNat)
    !x.overflows

mutual

/-- Every number in the value can be held. -/
def Value.fits : Value → Bool
  | .text _ => true
  | .integer n => integerFits n
  | .float d e => floatFits d e
  | .special => true
  | .boolean _ => true
  | .moment => true
  | .array vs => elementsFit vs
  | .tables ts => tablesFit ts
  | .table _ ms => membersFit ms

/-- Every number in the elements can be held. -/
def elementsFit : List Value → Bool
  | [] => true
  | v :: vs => v.fits && elementsFit vs

/-- Every number in the members can be held. -/
def membersFit : List (String × Value) → Bool
  | [] => true
  | m :: ms => memberFits m && membersFit ms

/-- Every number in the member can be held. -/
def memberFits : String × Value → Bool
  | (_, v) => v.fits

/-- Every number in the tables can be held. -/
def tablesFit : List (List (String × Value)) → Bool
  | [] => true
  | t :: ts => membersFit t && tablesFit ts

end

end Relay.Toml

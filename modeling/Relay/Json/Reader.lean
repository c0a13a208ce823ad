import Relay.Decimal.Binary64
import Relay.Text.Utf8

/-!
# Reading JSON

Readers take octets from the front of a text and give back what they leave.  The first fault ends
the reading, and there are three kinds: the text ended too early, it is not JSON, or it is JSON of
the wrong type.  A value of the wrong type is read as far as its type shows, so a fault inside it
comes first.  A value that nobody asked for is skipped: it has to be JSON, but its numbers have no
range and the escapes in its strings may name half a character.
-/

namespace Relay.Json

open Bytes (ascii)

/-- Why a text cannot be read. -/
inductive Fault where
  /-- The text ends too early. -/
  | ended
  /-- The text is not JSON, or goes on after the value. -/
  | malformed
  /-- The value is of the wrong type, names an unknown variant, or has a member twice. -/
  | mismatch
  deriving DecidableEq, Repr, Inhabited

/-- The text shown for the fault. -/
def Fault.message : Fault → String
  | ended => "the text ends too early"
  | malformed => "the text is not JSON"
  | mismatch => "the value is of the wrong type"

/-- The octets that may stand between tokens. -/
def isSpace (b : UInt8) : Bool := b == 0x20 || b == 0x0A || b == 0x09 || b == 0x0D

/-- The text without the space at its front. -/
def skipSpace (bs : Bytes) : Bytes := bs.dropWhile isSpace

/-- An ASCII digit. -/
def isDigit (b : UInt8) : Bool := 0x30 ≤ b && b ≤ 0x39

/-- Takes the octets of a fixed word. -/
def word : Bytes → Bytes → Except Fault Bytes
  | [], bs => .ok bs
  | _ :: _, [] => .error .ended
  | w :: ws, b :: bs => if b = w then word ws bs else .error .malformed

/-- The rest of `null`. -/
def nullTail : Bytes := [0x75, 0x6C, 0x6C]

/-- The rest of `true`. -/
def trueTail : Bytes := [0x72, 0x75, 0x65]

/-- The rest of `false`. -/
def falseTail : Bytes := [0x61, 0x6C, 0x73, 0x65]

/-! ## Strings -/

/-- The value of a hexadecimal digit, in either case. -/
def hexValue? (b : UInt8) : Option Nat :=
  if isDigit b then some (b.toNat - 0x30)
  else if 0x61 ≤ b && b ≤ 0x66 then some (b.toNat - 0x61 + 10)
  else if 0x41 ≤ b && b ≤ 0x46 then some (b.toNat - 0x41 + 10)
  else none

/-- The value of four hexadecimal digits. -/
def hexFour? (a b c d : UInt8) : Option Nat := do
  let a ← hexValue? a
  let b ← hexValue? b
  let c ← hexValue? c
  let d ← hexValue? d
  return ((a * 16 + b) * 16 + c) * 16 + d

/-- The octet that a one-letter escape stands for. -/
def shortEscape? (b : UInt8) : Option UInt8 :=
  if b = ascii '"' then some (ascii '"')
  else if b = ascii '\\' then some (ascii '\\')
  else if b = ascii '/' then some (ascii '/')
  else if b = ascii 'b' then some 0x08
  else if b = ascii 'f' then some 0x0C
  else if b = ascii 'n' then some 0x0A
  else if b = ascii 'r' then some 0x0D
  else if b = ascii 't' then some 0x09
  else none

/-- The first half of a character above U+FFFF. -/
def isLeadUnit (n : Nat) : Bool := 0xD800 ≤ n && n ≤ 0xDBFF

/-- The second half of a character above U+FFFF. -/
def isTrailUnit (n : Nat) : Bool := 0xDC00 ≤ n && n ≤ 0xDFFF

/-- The character of two halves. -/
def joinUnits (lead trail : Nat) : Char :=
  Char.ofNat ((lead - 0xD800) * 0x400 + (trail - 0xDC00) + 0x10000)

/-- The octets of a character, last first. -/
def backwards (c : Char) : Bytes := (String.utf8EncodeChar c).reverse

/-- Reads on to the closing quote; `acc` holds the octets so far, last first. -/
def stringFrom (acc : Bytes) : Bytes → Except Fault (Bytes × Bytes)
  | [] => .error .ended
  | b :: rest =>
    if b = ascii '"' then .ok (acc.reverse, rest)
    else if b = ascii '\\' then
      match rest with
      | [] => .error .ended
      | e :: rest =>
        match shortEscape? e with
        | some x => stringFrom (x :: acc) rest
        | none =>
          if e ≠ ascii 'u' then .error .malformed
          else
            match rest with
            | h₁ :: h₂ :: h₃ :: h₄ :: rest =>
              match hexFour? h₁ h₂ h₃ h₄ with
              | none => .error .malformed
              | some n =>
                if isTrailUnit n then .error .malformed
                else if isLeadUnit n then
                  match rest with
                  | [] => .error .ended
                  | x :: rest =>
                    if x ≠ ascii '\\' then .error .malformed
                    else
                      match rest with
                      | [] => .error .ended
                      | y :: rest =>
                        if y ≠ ascii 'u' then .error .malformed
                        else
                          match rest with
                          | k₁ :: k₂ :: k₃ :: k₄ :: rest =>
                            match hexFour? k₁ k₂ k₃ k₄ with
                            | none => .error .malformed
                            | some m =>
                              if isTrailUnit m then
                                stringFrom (backwards (joinUnits n m) ++ acc) rest
                              else .error .malformed
                          | _ => .error .ended
                else stringFrom (backwards (Char.ofNat n) ++ acc) rest
            | _ => .error .ended
    else if b < 0x20 then .error .malformed
    else stringFrom (b :: acc) rest

/-- Reads a string after its opening quote.  Its octets have to be text, which is seen at the
closing quote. -/
def string (bs : Bytes) : Except Fault (String × Bytes) := do
  let (octets, rest) ← stringFrom [] bs
  match Utf8.decode? octets with
  | some text => .ok (text, rest)
  | none => .error .malformed

/-- Skips a string after its opening quote. -/
def skipString : Bytes → Except Fault Bytes
  | [] => .error .ended
  | b :: rest =>
    if b = ascii '"' then .ok rest
    else if b = ascii '\\' then
      match rest with
      | [] => .error .ended
      | e :: rest =>
        if (shortEscape? e).isSome then skipString rest
        else if e ≠ ascii 'u' then .error .malformed
        else
          match rest with
          | h₁ :: h₂ :: h₃ :: h₄ :: rest =>
            if (hexFour? h₁ h₂ h₃ h₄).isSome then skipString rest else .error .malformed
          | _ => .error .ended
    else if b < 0x20 then .error .malformed
    else skipString rest

/-! ## Numbers -/

/-- Skips an exponent after its letter. -/
def skipExponent (bs : Bytes) : Except Fault Bytes :=
  let unsigned :=
    match bs with
    | b :: rest => if b = ascii '+' ∨ b = ascii '-' then rest else bs
    | [] => []
  match unsigned with
  | b :: rest => if isDigit b then .ok (rest.dropWhile isDigit) else .error .malformed
  | [] => .error .malformed

/-- Skips an exponent, if there is one. -/
def skipOptionalExponent : Bytes → Except Fault Bytes
  | b :: rest => if b = ascii 'e' ∨ b = ascii 'E' then skipExponent rest else .ok (b :: rest)
  | [] => .ok []

/-- Skips what may follow the whole part of a number. -/
def skipFraction : Bytes → Except Fault Bytes
  | b :: rest =>
    if b = ascii '.' then
      match rest with
      | d :: rest =>
        if isDigit d then skipOptionalExponent (rest.dropWhile isDigit) else .error .malformed
      | [] => .error .malformed
    else skipOptionalExponent (b :: rest)
  | [] => .ok []

/-- Skips a number without its sign. -/
def skipNumber : Bytes → Except Fault Bytes
  | [] => .error .malformed
  | b :: rest =>
    if b = ascii '0' then
      match rest with
      | d :: _ => if isDigit d then .error .malformed else skipFraction rest
      | [] => .ok []
    else if isDigit b then skipFraction (rest.dropWhile isDigit)
    else .error .malformed

/-- The greatest 64-bit word. -/
def wordMax : Nat := 18446744073709551615

/-- Takes digits into a 64-bit significand; those that no longer fit are counted instead. -/
def significand (acc : Nat) : Bytes → Nat × Nat
  | [] => (acc, 0)
  | d :: ds =>
    let next := acc * 10 + (d.toNat - 0x30)
    if next ≤ wordMax then significand next ds else (acc, ds.length + 1)

/-- `n · 10 ^ e` is beyond the binary64 numbers, when the product of the nearest numbers to the
factors is. -/
def outOfRange (n : Nat) (e : Int) : Bool :=
  decide (0 < n) && decide (0 ≤ e) &&
    (decide (308 < e) ||
      ((Decimal.Binary64.ofRatio n 1).mul (Decimal.Binary64.ofRatio (Nat.pow 10 e.toNat) 1)).overflows)

/-- Ends a number that someone wanted: it has to be in range. -/
def ranged (n : Nat) (e : Int) (rest : Bytes) : Except Fault Bytes :=
  if outOfRange n e then .error .malformed else .ok rest

/-- The value of digits. -/
def digitsValue (ds : Bytes) : Nat := ds.foldl (fun acc d => acc * 10 + (d.toNat - 0x30)) 0

/-- Reads an exponent after its letter. -/
def exponent (n : Nat) (e : Int) (bs : Bytes) : Except Fault Bytes :=
  let (negative, unsigned) :=
    match bs with
    | b :: rest =>
      if b = ascii '+' then (false, rest) else if b = ascii '-' then (true, rest) else (false, bs)
    | [] => (false, [])
  match unsigned with
  | [] => .error .ended
  | b :: _ =>
    if isDigit b then
      let value := (digitsValue (unsigned.takeWhile isDigit) : Int)
      ranged n (if negative then e - value else e + value) (unsigned.dropWhile isDigit)
    else .error .malformed

/-- Reads an exponent, if there is one. -/
def optionalExponent (n : Nat) (e : Int) : Bytes → Except Fault Bytes
  | b :: rest =>
    if b = ascii 'e' ∨ b = ascii 'E' then exponent n e rest else ranged n e (b :: rest)
  | [] => ranged n e []

/-- Reads what may follow the whole part of a number. -/
def fraction (n : Nat) (e : Int) : Bytes → Except Fault Bytes
  | b :: rest =>
    if b = ascii '.' then
      match rest with
      | [] => .error .ended
      | d :: _ =>
        if isDigit d then
          let places := rest.takeWhile isDigit
          let (m, dropped) := significand n places
          optionalExponent m (e - (places.length - dropped : Nat)) (rest.dropWhile isDigit)
        else .error .malformed
    else optionalExponent n e (b :: rest)
  | [] => ranged n e []

/-- Reads a number without its sign. -/
def number : Bytes → Except Fault Bytes
  | [] => .error .ended
  | b :: rest =>
    if b = ascii '0' then
      match rest with
      | d :: _ => if isDigit d then .error .malformed else fraction 0 0 rest
      | [] => .ok []
    else if isDigit b then
      let (n, dropped) := significand 0 ((b :: rest).takeWhile isDigit)
      fraction n dropped (rest.dropWhile isDigit)
    else .error .malformed

/-! ## Values -/

/-- The fault of a value that nobody could use: the first one inside it, or else its type. -/
def wrongType (bs : Bytes) : Fault :=
  let after (r : Except Fault Bytes) : Fault :=
    match r with
    | .ok _ => .mismatch
    | .error f => f
  match bs with
  | [] => .malformed
  | b :: rest =>
    if b = ascii 'n' then after (word nullTail rest)
    else if b = ascii 't' then after (word trueTail rest)
    else if b = ascii 'f' then after (word falseTail rest)
    else if b = ascii '-' then after (number rest)
    else if isDigit b then after (number bs)
    else if b = ascii '"' then after ((string rest).map (·.2))
    else if b = ascii '[' ∨ b = ascii '{' then .mismatch
    else .malformed

/-- Skips what follows a value in an array or an object: the end, or a comma and more. -/
def skipSeparator (close : UInt8) (bs : Bytes) : Except Fault (Bool × Bytes) :=
  match skipSpace bs with
  | [] => .error .ended
  | b :: rest =>
    if b = close then .ok (true, rest)
    else if b = ascii ',' then .ok (false, rest)
    else .error .malformed

/-- Takes the colon after a name. -/
def colon (bs : Bytes) : Except Fault Bytes :=
  match skipSpace bs with
  | [] => .error .ended
  | b :: rest => if b = ascii ':' then .ok rest else .error .malformed

mutual

/-- Skips a value; `fuel` bounds its depth and length together. -/
def skipValue : Nat → Bytes → Except Fault Bytes
  | 0, _ => .error .ended
  | fuel + 1, bs =>
    match skipSpace bs with
    | [] => .error .ended
    | b :: rest =>
      if b = ascii 'n' then word nullTail rest
      else if b = ascii 't' then word trueTail rest
      else if b = ascii 'f' then word falseTail rest
      else if b = ascii '-' then skipNumber rest
      else if isDigit b then skipNumber (b :: rest)
      else if b = ascii '"' then skipString rest
      else if b = ascii '[' then
        match skipSpace rest with
        | [] => .error .ended
        | c :: after => if c = ascii ']' then .ok after else skipElements fuel rest
      else if b = ascii '{' then
        match skipSpace rest with
        | [] => .error .ended
        | c :: after => if c = ascii '}' then .ok after else skipMembers fuel rest
      else .error .malformed

/-- Skips the elements of an array to its end. -/
def skipElements : Nat → Bytes → Except Fault Bytes
  | 0, _ => .error .ended
  | fuel + 1, bs => do
    let rest ← skipValue fuel bs
    let (done, rest) ← skipSeparator (ascii ']') rest
    if done then return rest else skipElements fuel rest

/-- Skips the members of an object to its end. -/
def skipMembers : Nat → Bytes → Except Fault Bytes
  | 0, _ => .error .ended
  | fuel + 1, bs =>
    match skipSpace bs with
    | [] => .error .ended
    | b :: rest =>
      if b = ascii '"' then do
        let rest ← skipString rest
        let rest ← colon rest
        let rest ← skipValue fuel rest
        let (done, rest) ← skipSeparator (ascii '}') rest
        if done then return rest else skipMembers fuel rest
      else .error .malformed

end

/-- Skips a value.  Each level and each element takes an octet at least, so twice the length is
enough fuel. -/
def skip (bs : Bytes) : Except Fault Bytes := skipValue (2 * bs.length + 2) bs

/-- Reads a truth value. -/
def boolean (bs : Bytes) : Except Fault (Bool × Bytes) :=
  match skipSpace bs with
  | [] => .error .ended
  | b :: rest =>
    if b = ascii 't' then (word trueTail rest).map (true, ·)
    else if b = ascii 'f' then (word falseTail rest).map (false, ·)
    else .error (wrongType (b :: rest))

/-- Reads a text. -/
def text (bs : Bytes) : Except Fault (String × Bytes) :=
  match skipSpace bs with
  | [] => .error .ended
  | b :: rest => if b = ascii '"' then string rest else .error (wrongType (b :: rest))

/-- Reads a text or `null`. -/
def optionalText (bs : Bytes) : Except Fault (Option String × Bytes) :=
  match skipSpace bs with
  | [] => .error .ended
  | b :: rest =>
    if b = ascii 'n' then (word nullTail rest).map (none, ·)
    else (text (b :: rest)).map fun (s, rest) => (some s, rest)

/-- Reads `null`. -/
def null (bs : Bytes) : Except Fault Bytes :=
  match skipSpace bs with
  | [] => .error .ended
  | b :: rest => if b = ascii 'n' then word nullTail rest else .error (wrongType (b :: rest))

/-- Nothing but space is left. -/
def finished (bs : Bytes) : Bool := (skipSpace bs).isEmpty

/-- The value of a whole text. -/
def whole {α : Type} (r : Except Fault (α × Bytes)) : Except Fault α := do
  let (value, rest) ← r
  if finished rest then return value else throw .malformed

/-! ## Members and elements -/

/-- Reads the members of an object after its brace.  `member` gets the state, the name, and the
text after the name; `first` tells whether a member has been read yet. -/
def members {σ : Type} (member : σ → String → Bytes → Except Fault (σ × Bytes)) :
    Nat → Bool → σ → Bytes → Except Fault (σ × Bytes)
  | 0, _, _, _ => .error .ended
  | fuel + 1, first, s, bs =>
    match skipSpace bs with
    | [] => .error .ended
    | b :: rest =>
      let named (bs : Bytes) : Except Fault (σ × Bytes) := do
        let (name, rest) ← string bs
        let (s, rest) ← member s name rest
        members member fuel false s rest
      if b = ascii '}' then .ok (s, rest)
      else if first then
        if b = ascii '"' then named rest else .error .malformed
      else if b = ascii ',' then
        match skipSpace rest with
        | [] => .error .ended
        | c :: rest => if c = ascii '"' then named rest else .error .malformed
      else .error .malformed

/-- Comes to the next element of an array after its bracket, or to none at its end. -/
def element? (first : Bool) (bs : Bytes) : Except Fault (Option Bytes) :=
  match skipSpace bs with
  | [] => .error .ended
  | b :: rest =>
    if b = ascii ']' then .ok none
    else if first then .ok (some (b :: rest))
    else if b = ascii ',' then
      match skipSpace rest with
      | [] => .error .ended
      | c :: rest => if c = ascii ']' then .error .malformed else .ok (some (c :: rest))
    else .error .malformed

/-- Takes the bracket that ends an array. -/
def endArray (bs : Bytes) : Except Fault Bytes :=
  match skipSpace bs with
  | [] => .error .ended
  | b :: rest => if b = ascii ']' then .ok rest else .error .malformed

end Relay.Json

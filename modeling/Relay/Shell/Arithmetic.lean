import Relay.Shell.Script
import Relay.Text.Numeral

/-!
# Integer expressions

Expressions over 64-bit integers with the usual operators; a name stands for the integer that is
its value.  Operators of one strength group to the left.
-/

namespace Relay.Shell

/-- An element of an expression. -/
inductive Atom where
  | number (n : Int)
  | name (cs : Chars)
  | sign (s : String)
  deriving DecidableEq, Repr

/-- An integer within 64 bits. -/
def wrap (n : Int) : Int := n.bmod 18446744073709551616

/-- The value of a numeral: decimal, octal after `0`, hexadecimal after `0x`. -/
def numeral? (cs : Chars) : Option Int :=
  let value (base : Nat) (ds : Chars) : Option Int :=
    if ds.isEmpty then none
    else
      ds.foldlM (fun acc c =>
        match Numeral.hexDigit? c with
        | some d => if d < base then some (acc * base + d) else none
        | none => none) (0 : Int)
  match cs with
  | '0' :: 'x' :: ds => value 16 ds
  | '0' :: 'X' :: ds => value 16 ds
  | '0' :: d :: ds => value 8 (d :: ds)
  | ds => value 10 ds

/-- The signs of two characters. -/
def doubleSigns : List Chars :=
  ["==", "!=", "<=", ">=", "&&", "||", "<<", ">>"].map String.toList

/-- The elements of an expression; `none` when a character has no place in it. -/
def atoms? : Nat → Chars → Option (List Atom)
  | 0, _ => none
  | _ + 1, [] => some []
  | fuel + 1, c :: cs =>
    if c = ' ' ∨ c = '\t' ∨ c = '\n' then atoms? fuel cs
    else if c.isDigit then
      let digits := (c :: cs).takeWhile Char.isAlphanum
      match numeral? digits with
      | some n => (atoms? fuel ((c :: cs).drop digits.length)).map (.number n :: ·)
      | none => none
    else if c.isAlpha || c == '_' then
      let name := (c :: cs).takeWhile fun c => c.isAlphanum || c == '_'
      (atoms? fuel ((c :: cs).drop name.length)).map (.name name :: ·)
    else if doubleSigns.contains ((c :: cs).take 2) then
      (atoms? fuel (cs.drop 1)).map (.sign (String.ofList ((c :: cs).take 2)) :: ·)
    else if "+-*/%()<>!~&|^?:".toList.contains c then
      (atoms? fuel cs).map (.sign (String.singleton c) :: ·)
    else none

/-- How strongly an operator binds; more is stronger. -/
def strength (s : String) : Option Nat :=
  if s = "||" then some 1
  else if s = "&&" then some 2
  else if s = "|" then some 3
  else if s = "^" then some 4
  else if s = "&" then some 5
  else if s = "==" ∨ s = "!=" then some 6
  else if s = "<" ∨ s = ">" ∨ s = "<=" ∨ s = ">=" then some 7
  else if s = "<<" ∨ s = ">>" then some 8
  else if s = "+" ∨ s = "-" then some 9
  else if s = "*" ∨ s = "/" ∨ s = "%" then some 10
  else none

/-- One for true and zero for false. -/
def truth (b : Bool) : Int := if b then 1 else 0

/-- A bitwise operation on 64-bit words. -/
def bits (f : UInt64 → UInt64 → UInt64) (a b : Int) : Int :=
  (f (UInt64.ofInt a) (UInt64.ofInt b)).toNat

/-- The value of an operator.  `instead` divides where zero would; `none` when that is zero
too. -/
def operate (instead : Int) (s : String) (a b : Int) : Option Int :=
  let divisor := if b = 0 then instead else b
  if s = "+" then some (wrap (a + b))
  else if s = "-" then some (wrap (a - b))
  else if s = "*" then some (wrap (a * b))
  else if s = "/" then (if divisor = 0 then none else some (wrap (a.tdiv divisor)))
  else if s = "%" then (if divisor = 0 then none else some (wrap (a.tmod divisor)))
  else if s = "==" then some (truth (a == b))
  else if s = "!=" then some (truth (a != b))
  else if s = "<" then some (truth (a < b))
  else if s = ">" then some (truth (b < a))
  else if s = "<=" then some (truth (a ≤ b))
  else if s = ">=" then some (truth (b ≤ a))
  else if s = "&&" then some (truth (a != 0 && b != 0))
  else if s = "||" then some (truth (a != 0 || b != 0))
  else if s = "&" then some (wrap (bits (· &&& ·) a b))
  else if s = "|" then some (wrap (bits (· ||| ·) a b))
  else if s = "^" then some (wrap (bits (· ^^^ ·) a b))
  else if s = "<<" then some (wrap (a * Int.ofNat (Nat.pow 2 (b.toNat % 64))))
  else if s = ">>" then some (a.shiftRight (b.toNat % 64))
  else none

mutual

/-- The value of an operand. -/
def operand? (look : Chars → Option Int) (instead : Int) : Nat → List Atom → Option (Int × List Atom)
  | 0, _ => none
  | fuel + 1, as =>
    match as with
    | .number n :: rest => some (wrap n, rest)
    | .name cs :: rest => (look cs).map fun n => (n, rest)
    | .sign s :: rest =>
      if s = "(" then
        match ternary? look instead fuel rest with
        | some (n, .sign ")" :: rest) => some (n, rest)
        | _ => none
      else if s = "-" then (operand? look instead fuel rest).map fun (n, rest) => (wrap (-n), rest)
      else if s = "+" then operand? look instead fuel rest
      else if s = "!" then (operand? look instead fuel rest).map fun (n, rest) => (truth (n == 0), rest)
      else if s = "~" then (operand? look instead fuel rest).map fun (n, rest) => (-n - 1, rest)
      else none
    | [] => none

/-- The value of an expression of operators at least this strong. -/
def binary? (look : Chars → Option Int) (instead : Int) : Nat → Nat → List Atom → Option (Int × List Atom)
  | 0, _, _ => none
  | fuel + 1, least, as =>
    match operand? look instead fuel as with
    | some (n, rest) => binaryFrom? look instead fuel least n rest
    | none => none

/-- Goes on after a left operand. -/
def binaryFrom? (look : Chars → Option Int) (instead : Int) :
    Nat → Nat → Int → List Atom → Option (Int × List Atom)
  | 0, _, _, _ => none
  | fuel + 1, least, left, as =>
    match as with
    | .sign s :: rest =>
      match strength s with
      | some k =>
        if k < least then some (left, as)
        else
          match binary? look instead fuel (k + 1) rest with
          | some (right, rest) =>
            match operate instead s left right with
            | some n => binaryFrom? look instead fuel least n rest
            | none => none
          | none => none
      | none => some (left, as)
    | _ => some (left, as)

/-- The value of a whole expression. -/
def ternary? (look : Chars → Option Int) (instead : Int) : Nat → List Atom → Option (Int × List Atom)
  | 0, _ => none
  | fuel + 1, as =>
    match binary? look instead fuel 1 as with
    | some (n, .sign "?" :: rest) =>
      match ternary? look instead fuel rest with
      | some (yes, .sign ":" :: rest) =>
        match ternary? look instead fuel rest with
        | some (no, rest) => some (if n ≠ 0 then yes else no, rest)
        | none => none
      | _ => none
    | r => r

end

/-- The value of an expression; `instead` divides where zero would. -/
def evaluate? (look : Chars → Option Int) (cs : Chars) (instead : Int) : Option Int :=
  match atoms? (cs.length + 1) cs with
  | some [] => some 0
  | some as =>
    match ternary? look instead (4 * as.length + 8) as with
    | some (n, []) => some n
    | _ => none
  | none => none

end Relay.Shell

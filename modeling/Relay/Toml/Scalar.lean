import Relay.Text.Numeral
import Relay.Toml.Value

/-!
# Numbers, dates and truth values in TOML

A scalar without quotes is a run of letters, digits, signs, dots, colons and underscores, read as a
whole.  Underscores stand between digits only; a decimal number has no leading zero; the other
bases take no sign.  Dates have to exist, and the seconds of a time may be left out.
-/

namespace Relay.Toml

/-- The digits without the underscores between them; `none` if an underscore is not between
digits, or if there are no digits. -/
def ungroup? (isDigit : Char → Bool) : List Char → Option (List Char)
  | [] => none
  | [c] => if isDigit c then some [c] else none
  | c :: d :: cs =>
    if isDigit c then
      if d = '_' then (ungroup? isDigit cs).map (c :: ·)
      else (ungroup? isDigit (d :: cs)).map (c :: ·)
    else none

/-- The value of digits in a base. -/
def valueIn (base : Nat) (cs : List Char) : Nat :=
  cs.foldl (fun acc c => acc * base + (Numeral.hexDigit? c).getD 0) 0

/-- A digit of a base. -/
def isDigitOf (base : Nat) (c : Char) : Bool :=
  match Numeral.hexDigit? c with
  | some d => decide (d < base)
  | none => false

/-- A decimal digit. -/
def isDecimal (c : Char) : Bool := isDigitOf 10 c

/-- Digits in a base other than ten. -/
def based? (base : Nat) (cs : List Char) : Option Value :=
  (ungroup? (isDigitOf base) cs).map fun ds => .integer (valueIn base ds)

/-- The sign of a number, and what follows it. -/
def takeSign : List Char → Bool × List Char
  | '+' :: cs => (false, cs)
  | '-' :: cs => (true, cs)
  | cs => (false, cs)

/-- Digits and underscores. -/
def isGrouped (c : Char) : Bool := isDecimal c || c == '_'

/-- The whole part of a decimal number: no leading zero unless it is all. -/
def wholePart? (cs : List Char) : Option (List Char) :=
  match ungroup? isDecimal cs with
  | some ('0' :: _ :: _) => none
  | r => r

/-- The exponent of a number, after its letter. -/
def exponentPart? (cs : List Char) : Option Int :=
  let (negative, cs) := takeSign cs
  (ungroup? isDecimal cs).map fun ds =>
    if negative then -(valueIn 10 ds : Int) else (valueIn 10 ds : Int)

/-- An optional exponent that ends the number. -/
def exponentOrEnd? : List Char → Option Int
  | [] => some 0
  | c :: cs => if c = 'e' ∨ c = 'E' then exponentPart? cs else none

/-- A decimal number, whole or not. -/
def decimal? (cs : List Char) : Option Value := do
  let (negative, cs) := takeSign cs
  let whole ← wholePart? (cs.takeWhile isGrouped)
  match cs.dropWhile isGrouped with
  | [] => return .integer (if negative then -(valueIn 10 whole : Int) else valueIn 10 whole)
  | '.' :: cs =>
    let places ← ungroup? isDecimal (cs.takeWhile isGrouped)
    let e ← exponentOrEnd? (cs.dropWhile isGrouped)
    return .float (valueIn 10 (whole ++ places)) (e - places.length)
  | cs =>
    let e ← exponentOrEnd? cs
    return .float (valueIn 10 whole) e

/-! ## Dates and times -/

/-- A number of exactly `n` digits, and what follows it. -/
def fixedDigits? (n : Nat) (cs : List Char) : Option (Nat × List Char) :=
  let ds := cs.takeWhile isDecimal
  if ds.length = n then some (valueIn 10 ds, cs.drop n) else none

/-- Takes one character. -/
def takeChar? (c : Char) : List Char → Option (List Char)
  | d :: cs => if d = c then some cs else none
  | [] => none

/-- A year with a 29th of February. -/
def isLeapYear (y : Nat) : Bool := (y % 4 == 0 && y % 100 != 0) || y % 400 == 0

/-- The number of days in a month. -/
def daysIn (year month : Nat) : Nat :=
  if month = 2 then (if isLeapYear year then 29 else 28)
  else if month = 4 ∨ month = 6 ∨ month = 9 ∨ month = 11 then 30
  else 31

/-- Takes a date. -/
def takeDate? (cs : List Char) : Option (List Char) := do
  let (year, cs) ← fixedDigits? 4 cs
  let cs ← takeChar? '-' cs
  let (month, cs) ← fixedDigits? 2 cs
  let cs ← takeChar? '-' cs
  let (day, cs) ← fixedDigits? 2 cs
  if 1 ≤ month ∧ month ≤ 12 ∧ 1 ≤ day ∧ day ≤ daysIn year month then some cs else none

/-- Takes a fraction of a second, if there is one. -/
def takeFraction? : List Char → Option (List Char)
  | '.' :: cs =>
    if (cs.takeWhile isDecimal).isEmpty then none else some (cs.dropWhile isDecimal)
  | cs => some cs

/-- Takes the seconds of a time, if there are any. -/
def takeSeconds? : List Char → Option (List Char)
  | ':' :: cs => do
    let (second, cs) ← fixedDigits? 2 cs
    if second ≤ 60 then takeFraction? cs else none
  | cs => some cs

/-- Takes a time. -/
def takeTime? (cs : List Char) : Option (List Char) := do
  let (hour, cs) ← fixedDigits? 2 cs
  let cs ← takeChar? ':' cs
  let (minute, cs) ← fixedDigits? 2 cs
  if hour ≤ 23 ∧ minute ≤ 59 then takeSeconds? cs else none

/-- Takes the offset of a time from universal time, if there is one. -/
def takeOffset? : List Char → Option (List Char)
  | [] => some []
  | c :: cs =>
    if c = 'Z' ∨ c = 'z' then some cs
    else if c = '+' ∨ c = '-' then do
      let (hours, cs) ← fixedDigits? 2 cs
      let cs ← takeChar? ':' cs
      let (minutes, cs) ← fixedDigits? 2 cs
      if hours ≤ 23 ∧ minutes ≤ 59 then some cs else none
    else none

/-- A date, perhaps with a time and an offset, or a time. -/
def isMoment (cs : List Char) : Bool :=
  match takeDate? cs with
  | some [] => true
  | some (c :: rest) =>
    (c == 'T' || c == 't' || c == ' ') && ((takeTime? rest).bind takeOffset? == some [])
  | none => takeTime? cs == some []

/-- The value of a run of characters without quotes. -/
def scalar? (cs : List Char) : Option Value :=
  match cs with
  | ['t', 'r', 'u', 'e'] => some (.boolean true)
  | ['f', 'a', 'l', 's', 'e'] => some (.boolean false)
  | '0' :: 'x' :: ds => based? 16 ds
  | '0' :: 'o' :: ds => based? 8 ds
  | '0' :: 'b' :: ds => based? 2 ds
  | _ =>
    let unsigned := (takeSign cs).2
    if unsigned = ['i', 'n', 'f'] ∨ unsigned = ['n', 'a', 'n'] then some .special
    else if isMoment cs then some .moment
    else decimal? cs

/-- A character of a scalar without quotes. -/
def isScalarChar (c : Char) : Bool :=
  c.isAlphanum || c == '_' || c == '+' || c == '-' || c == '.' || c == ':'

/-- The run of characters that makes a scalar, and what follows it.  One blank joins a date to a
time. -/
def takeScalar (cs : List Char) : List Char × List Char :=
  let run := cs.takeWhile isScalarChar
  let rest := cs.dropWhile isScalarChar
  match rest with
  | ' ' :: c :: more =>
    if takeDate? run = some [] ∧ isDecimal c then
      (run ++ ' ' :: (c :: more).takeWhile isScalarChar, (c :: more).dropWhile isScalarChar)
    else (run, rest)
  | _ => (run, rest)

end Relay.Toml

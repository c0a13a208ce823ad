/-!
# Punycode

A label with characters outside ASCII is written in letters, digits and hyphens: first its ASCII
characters, then, in ascending order of code points, where each of the others is to be inserted.
The distances are numbers in base 36 with digits of varying weight.
-/

namespace Relay.Url.Punycode

/-- The digit of a value below 36. -/
def digitChar (d : Nat) : Char := if d < 26 then Char.ofNat (0x61 + d) else Char.ofNat (0x30 + d - 26)

/-- The value of a digit. -/
def digitValue? (c : Char) : Option Nat :=
  if 'a' ≤ c ∧ c ≤ 'z' then some (c.toNat - 0x61)
  else if 'A' ≤ c ∧ c ≤ 'Z' then some (c.toNat - 0x41)
  else if '0' ≤ c ∧ c ≤ '9' then some (c.toNat - 0x30 + 26)
  else none

/-- The value from which a digit is the last one. -/
def threshold (k bias : Nat) : Nat := if k ≤ bias then 1 else min 26 (k - bias)

theorem threshold_pos (k bias : Nat) : 1 ≤ threshold k bias := by
  unfold threshold
  split <;> omega

theorem threshold_le (k bias : Nat) : threshold k bias ≤ 26 := by
  unfold threshold
  split <;> omega

/-- Divides a distance down to the range of one digit. -/
def adaptFrom (delta k : Nat) : Nat :=
  if 455 < delta then adaptFrom (delta / 35) (k + 36) else k + 36 * delta / (delta + 38)
termination_by delta
decreasing_by exact Nat.div_lt_self (by omega) (by omega)

/-- The bias after a distance, when `count` characters are placed. -/
def adapt (delta count : Nat) (first : Bool) : Nat :=
  let delta := if first then delta / 700 else delta / 2
  adaptFrom (delta + delta / count) 0

/-- The digits of a distance. -/
def digits (bias k q : Nat) : List Char :=
  let t := threshold k bias
  if q < t then [digitChar q]
  else digitChar (t + (q - t) % (36 - t)) :: digits bias (k + 36) ((q - t) / (36 - t))
termination_by q
decreasing_by
  have h₁ := threshold_pos k bias
  have h₂ := threshold_le k bias
  have h₃ := Nat.div_le_self (q - threshold k bias) (36 - threshold k bias)
  omega

/-- What has been written of a label. -/
structure Progress where
  written : List Char
  delta : Nat
  bias : Nat
  count : Nat

/-- Goes past one character of the label while the code point `n` is being placed. -/
def pass (n basic : Nat) (p : Progress) (c : Char) : Progress :=
  if c.toNat < n then { p with delta := p.delta + 1 }
  else if c.toNat = n then
    { written := p.written ++ digits p.bias 36 p.delta
      delta := 0
      bias := adapt p.delta (p.count + 1) (p.count == basic)
      count := p.count + 1 }
  else p

/-- Places code points in ascending order; `next` is the least that is not placed. -/
def place (label : List Char) (basic : Nat) : List Nat → Nat → Progress → List Char
  | [], _, p => p.written
  | n :: ns, next, p =>
    let p := { p with delta := p.delta + (n - next) * (p.count + 1) }
    let p := label.foldl (pass n basic) p
    place label basic ns (n + 1) { p with delta := p.delta + 1 }

/-- The code points of a label outside ASCII, ascending and each once. -/
def others (label : List Char) : List Nat :=
  ((label.map Char.toNat).filter (0x80 ≤ ·)).mergeSort.eraseDups

/-- A label in ASCII. -/
def encode (label : List Char) : List Char :=
  let basic := label.filter (·.toNat < 0x80)
  let start := if basic = [] then [] else basic ++ ['-']
  place label basic.length (others label) 0x80 ⟨start, 0, 72, basic.length⟩

/-- Reads the digits of a distance. -/
def distance? (bias : Nat) : Nat → Nat → Nat → List Char → Option (Nat × List Char)
  | _, _, _, [] => none
  | k, weight, i, c :: cs =>
    match digitValue? c with
    | none => none
    | some d =>
      let t := threshold k bias
      if d < t then some (i + d * weight, cs)
      else distance? bias (k + 36) (weight * (36 - t)) (i + d * weight) cs

/-- Inserts code points at the distances that are read. -/
def insertFrom : Nat → Nat → Nat → Nat → List Char → List Char → Option (List Char)
  | _, _, _, _, label, [] => some label
  | 0, _, _, _, _, _ :: _ => none
  | fuel + 1, n, i, bias, label, cs =>
    match distance? bias 36 1 i cs with
    | none => none
    | some (j, rest) =>
      let count := label.length + 1
      let n := n + j / count
      if n < 0xD800 ∨ (0xDFFF < n ∧ n ≤ 0x10FFFF) then
        let label := label.take (j % count) ++ Char.ofNat n :: label.drop (j % count)
        insertFrom fuel n (j % count + 1) (adapt (j - i) count (i == 0)) label rest
      else none

/-- The label that is written in ASCII, if it is one. -/
def decode? (cs : List Char) : Option (List Char) :=
  let tail := (cs.reverse.takeWhile (· != '-')).reverse
  let basic := (cs.take (cs.length - tail.length)).dropLast
  insertFrom (tail.length + 1) 0x80 0 72 basic tail

end Relay.Url.Punycode

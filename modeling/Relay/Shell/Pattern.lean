import Relay.Shell.Script

/-!
# Patterns

A pattern matches texts: `?` stands for one character, `*` for any number of them, and brackets for
one of a set.  Quoted characters stand for themselves.
-/

namespace Relay.Shell

/-- A text whose characters are quoted or not. -/
abbrev Marked := List (Char × Bool)

/-- One element of a pattern. -/
inductive Glob where
  | one (c : Char)
  | any
  | many
  /-- One character inside the ranges, or outside all of them. -/
  | range (negated : Bool) (ranges : List (Char × Char))
  deriving DecidableEq, Repr

/-- Reads the ranges of a set up to its bracket; `first` while a bracket still stands for
itself. -/
def rangesFrom (first : Bool) : Marked → Option (List (Char × Char) × Marked)
  | [] => none
  | [(c, q)] => if c = ']' ∧ !q ∧ !first then some ([], []) else none
  | [(c, q), (d, r)] =>
    if c = ']' ∧ !q ∧ !first then some ([], [(d, r)])
    else if d = ']' ∧ !r then some ([(c, c)], [])
    else none
  | (c, q) :: (d, r) :: (e, u) :: rest =>
    if c = ']' ∧ !q ∧ !first then some ([], (d, r) :: (e, u) :: rest)
    else if d = '-' ∧ !r ∧ ¬(e = ']' ∧ !u) then
      (rangesFrom false rest).map fun (rs, rest) => ((c, e) :: rs, rest)
    else
      (rangesFrom false ((d, r) :: (e, u) :: rest)).map fun (rs, rest) => ((c, c) :: rs, rest)

/-- Reads a set after its opening bracket. -/
def bracket? : Marked → Option (Glob × Marked)
  | (c, false) :: rest =>
    if c = '!' ∨ c = '^' then
      (rangesFrom true rest).map fun (rs, rest) => (.range true rs, rest)
    else (rangesFrom true ((c, false) :: rest)).map fun (rs, rest) => (.range false rs, rest)
  | m => (rangesFrom true m).map fun (rs, rest) => (.range false rs, rest)

/-- The pattern of a text; `fuel` bounds its length. -/
def globFrom : Nat → Marked → List Glob
  | 0, _ => []
  | _ + 1, [] => []
  | fuel + 1, (c, quoted) :: rest =>
    if quoted then .one c :: globFrom fuel rest
    else if c = '*' then .many :: globFrom fuel rest
    else if c = '?' then .any :: globFrom fuel rest
    else if c = '[' then
      match bracket? rest with
      | some (g, rest) => g :: globFrom fuel rest
      | none => .one c :: globFrom fuel rest
    else .one c :: globFrom fuel rest

/-- The pattern of a text. -/
def glob (m : Marked) : List Glob := globFrom m.length m

/-- A character is in one of the ranges. -/
def inRanges (rs : List (Char × Char)) (c : Char) : Bool :=
  rs.any fun (a, b) => decide (a ≤ c) && decide (c ≤ b)

/-- The pattern matches the whole text. -/
def globMatches : List Glob → Chars → Bool
  | [], cs => cs.isEmpty
  | .many :: gs, [] => globMatches gs []
  | .many :: gs, c :: cs => globMatches gs (c :: cs) || globMatches (.many :: gs) cs
  | .one _ :: _, [] => false
  | .one d :: gs, c :: cs => c == d && globMatches gs cs
  | .any :: _, [] => false
  | .any :: gs, _ :: cs => globMatches gs cs
  | .range _ _ :: _, [] => false
  | .range negated rs :: gs, c :: cs => (inRanges rs c != negated) && globMatches gs cs
termination_by gs cs => (gs.length + cs.length)

/-- The text has a meaning as a pattern. -/
def isPattern (m : Marked) : Bool :=
  m.any fun (c, quoted) => !quoted && (c == '*' || c == '?' || c == '[')

/-- The text without the shortest or longest end, or front, that the pattern matches. -/
def trimPattern (gs : List Glob) (atEnd longest : Bool) (cs : Chars) : Chars :=
  let cuts := (List.range (cs.length + 1)).filter fun n =>
    if atEnd then globMatches gs (cs.drop n) else globMatches gs (cs.take n)
  match if longest == atEnd then cuts.head? else cuts.getLast? with
  | some n => if atEnd then cs.take n else cs.drop n
  | none => cs

end Relay.Shell

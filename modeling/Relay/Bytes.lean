/-!
# Octets

File contents, file names and what a process writes are sequences of octets; text is only one
reading of them (`Relay.Text.Utf8`).  Sequences are lists, so that every rule on them is a
recursion on the data.
-/

namespace Relay

/-- A sequence of octets. -/
abbrev Bytes := List UInt8

namespace Bytes

/-- The octet of an ASCII character. -/
def ascii (c : Char) : UInt8 := UInt8.ofNat c.toNat

/-- The octet that separates the names of a path. -/
def slash : UInt8 := ascii '/'

/-- The octet `.`. -/
def dot : UInt8 := ascii '.'

/-- The octet that ends a line. -/
def newline : UInt8 := ascii '\n'

/-- The text between the separators of `bs`; `n` separators give `n + 1` pieces. -/
def splitOn (sep : UInt8) : Bytes → List Bytes
  | [] => [[]]
  | b :: rest =>
    if b = sep then [] :: splitOn sep rest
    else
      match splitOn sep rest with
      | [] => [[b]]
      | piece :: pieces => (b :: piece) :: pieces

/-- The pieces with one separator between neighbours. -/
def joinWith (sep : UInt8) : List Bytes → Bytes
  | [] => []
  | [piece] => piece
  | piece :: pieces => piece ++ sep :: joinWith sep pieces

theorem splitOn_ne_nil (sep : UInt8) (bs : Bytes) : splitOn sep bs ≠ [] := by
  cases bs with
  | nil => simp [splitOn]
  | cons b rest =>
    unfold splitOn
    split
    · simp
    · split <;> simp

/-- Joining the pieces gives the text back. -/
theorem joinWith_splitOn (sep : UInt8) (bs : Bytes) : joinWith sep (splitOn sep bs) = bs := by
  induction bs with
  | nil => rfl
  | cons b rest ih =>
    unfold splitOn
    split
    · next h =>
      cases hs : splitOn sep rest with
      | nil => exact absurd hs (splitOn_ne_nil sep rest)
      | cons piece pieces => rw [hs] at ih; simp [joinWith, ih, h]
    · cases hs : splitOn sep rest with
      | nil => exact absurd hs (splitOn_ne_nil sep rest)
      | cons piece pieces =>
        rw [hs] at ih
        cases pieces with
        | nil => simpa [joinWith] using ih
        | cons q qs => simpa [joinWith] using ih

/-- The hexadecimal digit of a number below sixteen. -/
def hexDigit (n : Nat) : Char :=
  if n < 10 then Char.ofNat (0x30 + n) else Char.ofNat (0x61 + (n - 10))

end Bytes

end Relay

/-!
# White space

Blank characters are those with the Unicode property White_Space.  Trimming takes them off both
ends of a text; a text is blank when nothing else is in it.
-/

namespace Relay.Text

/-- The characters with the property White_Space. -/
def isBlank (c : Char) : Bool :=
  let n := c.toNat
  (0x09 ≤ n && n ≤ 0x0D) || n == 0x20 || n == 0x85 || n == 0xA0 || n == 0x1680 ||
    (0x2000 ≤ n && n ≤ 0x200A) || n == 0x2028 || n == 0x2029 || n == 0x202F || n == 0x205F ||
    n == 0x3000

/-- The characters without the blanks at the front. -/
def trimStartChars (cs : List Char) : List Char := cs.dropWhile isBlank

/-- The characters without the blanks at the back. -/
def trimEndChars (cs : List Char) : List Char := (cs.reverse.dropWhile isBlank).reverse

/-- The characters without the blanks at either end. -/
def trimChars (cs : List Char) : List Char := trimEndChars (trimStartChars cs)

/-- The text without the blanks at either end. -/
def trim (s : String) : String := String.ofList (trimChars s.toList)

/-- A text of blanks only. -/
def allBlank (s : String) : Bool := s.toList.all isBlank

/-- Lines, each with its break. -/
def ofLines (lines : List String) : String := String.join (lines.map (· ++ "\n"))

/-- The text ends in a line break. -/
def endsLine (s : String) : Bool := s.toList.getLast? == some '\n'

/-- `s` without all its `c` at the back. -/
def dropEndChar (c : Char) (s : String) : String :=
  String.ofList (s.toList.reverse.dropWhile (· == c)).reverse

/-- Equal but for the case of ASCII letters. -/
def eqIgnoringCase (s t : String) : Bool := s.toList.map Char.toLower == t.toList.map Char.toLower

end Relay.Text

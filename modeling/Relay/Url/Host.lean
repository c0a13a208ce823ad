import Relay.Text.Lowercase
import Relay.Url.Percent
import Relay.Url.Punycode

/-!
# Hosts

A host is a domain name, an IPv4 or IPv6 address, or, for a scheme that this library knows nothing
about, a name kept as it is.  A domain is lower-cased and brought into ASCII label by label.  If its
last label is a number, the whole has to be an IPv4 address: up to four numbers in decimal, octal
or hexadecimal, the last of which fills the octets that are left.
-/

namespace Relay.Url

/-- A host. -/
inductive Host where
  | domain (name : List Char)
  | ipv4 (address : Nat)
  /-- Eight pieces of sixteen bits. -/
  | ipv6 (pieces : List Nat)
  deriving DecidableEq, Repr

/-- The pieces between separators. -/
def splitAt (sep : Char) : List Char → List (List Char)
  | [] => [[]]
  | c :: cs =>
    if c = sep then [] :: splitAt sep cs
    else
      match splitAt sep cs with
      | [] => [[c]]
      | piece :: pieces => (c :: piece) :: pieces

/-! ## IPv4 addresses -/

/-- A number of an address: hexadecimal after `0x`, octal after `0`, else decimal. -/
def hostNumber? (cs : List Char) : Option Nat :=
  let value (base : Nat) (ds : List Char) : Option Nat :=
    ds.foldlM (fun acc c =>
      match Numeral.hexDigit? c with
      | some d => if d < base then some (acc * base + d) else none
      | none => none) 0
  match cs with
  | [] => none
  | '0' :: 'x' :: ds => value 16 ds
  | '0' :: 'X' :: ds => value 16 ds
  | '0' :: d :: ds => value 8 (d :: ds)
  | ds => value 10 ds

/-- The labels of a domain, without the empty one after a final dot. -/
def labels (domain : List Char) : List (List Char) :=
  let all := splitAt '.' domain
  if all.getLast? = some [] then all.dropLast else all

/-- The last label is a number. -/
def endsInNumber (domain : List Char) : Bool :=
  match (labels domain).getLast? with
  | some last => (!last.isEmpty && last.all Char.isDigit) || (hostNumber? last).isSome
  | none => false

/-- The address that numbers write. -/
def ipv4? (domain : List Char) : Option Nat :=
  match (labels domain).mapM hostNumber? with
  | none => none
  | some numbers =>
    match numbers.reverse with
    | [] => none
    | last :: front =>
      if 3 < front.length ∨ front.any (255 < ·) ∨ Nat.pow 256 (4 - front.length) ≤ last then none
      else
        let high := front.reverse.foldl (fun acc n => acc * 256 + n) 0
        some (high * Nat.pow 256 (4 - front.length) + last)

/-- An IPv4 address in four numbers. -/
def ipv4Text (address : Nat) : List Char :=
  let octet (n : Nat) : List Char := Nat.toDigits 10 (address / Nat.pow 256 n % 256)
  octet 3 ++ '.' :: octet 2 ++ '.' :: octet 1 ++ '.' :: octet 0

/-! ## IPv6 addresses -/

/-- A piece of up to four hexadecimal digits. -/
def ipv6Piece? (cs : List Char) : Option Nat :=
  if cs = [] ∨ 4 < cs.length then none
  else
    cs.foldlM (fun acc c => (Numeral.hexDigit? c).map (acc * 16 + ·)) 0

/-- A number of the IPv4 form at the end: decimal, up to 255, without a leading zero. -/
def ipv6Octet? (cs : List Char) : Option Nat :=
  match Numeral.digits? cs with
  | some n => if n < 256 ∧ (cs.length = 1 ∨ cs.head? ≠ some '0') then some n else none
  | none => none

/-- The pieces of one side of an address; the last may be in IPv4 form where the side is last. -/
def ipv6Side? (isLast : Bool) (cs : List Char) : Option (List Nat) :=
  if cs = [] then some []
  else
    let parts := splitAt ':' cs
    match parts.getLast? with
    | some last =>
      if isLast ∧ last.contains '.' then
        match parts.dropLast.mapM ipv6Piece?, (splitAt '.' last).mapM ipv6Octet? with
        | some ps, some [a, b, c, d] => some (ps ++ [a * 256 + b, c * 256 + d])
        | _, _ => none
      else parts.mapM ipv6Piece?
    | none => none

/-- What stands before and after the first `::`. -/
def splitGap : List Char → Option (List Char × List Char)
  | ':' :: ':' :: cs => some ([], cs)
  | c :: cs => (splitGap cs).map fun (a, b) => (c :: a, b)
  | [] => none

/-- The address between brackets; `::` stands for pieces of zero. -/
def ipv6? (cs : List Char) : Option (List Nat) :=
  match splitGap cs with
  | none =>
    match ipv6Side? true cs with
    | some ps => if ps.length = 8 then some ps else none
    | none => none
  | some (front, back) =>
    match ipv6Side? false front, ipv6Side? true back with
    | some ps, some qs =>
      let n := ps.length + qs.length
      if n < 8 then some (ps ++ List.replicate (8 - n) 0 ++ qs) else none
    | _, _ => none

/-- How many zeros stand at the front. -/
def zeroRun (ps : List Nat) : Nat := (ps.takeWhile (· == 0)).length

/-- Where the first of the longest runs of zeros starts, and its length. -/
def longestRun (ps : List Nat) : Nat × Nat :=
  (List.range ps.length).foldl (fun best i =>
    let n := zeroRun (ps.drop i)
    if best.2 < n then (i, n) else best) (0, 0)

/-- Pieces in hexadecimal. -/
def ipv6Pieces (ps : List Nat) : List Char := [':'].intercalate (ps.map (Nat.toDigits 16))

/-- An IPv6 address: the first of the longest runs of two zeros or more is left out. -/
def ipv6Text (ps : List Nat) : List Char :=
  let (start, n) := longestRun ps
  if n < 2 then ipv6Pieces ps
  else ipv6Pieces (ps.take start) ++ [':', ':'] ++ ipv6Pieces (ps.drop (start + n))

/-! ## Domains -/

/-- A character that does not count in a domain. -/
def isSilent (c : Char) : Bool :=
  let n := c.toNat
  n == 0xAD || n == 0x200B || n == 0x2060 || n == 0xFEFF || (0xFE00 ≤ n && n ≤ 0xFE0F)

/-- The characters that stand for a character in a domain: wide forms are narrow ones, and the
full stops of other scripts are dots. -/
def domainChar (c : Char) : List Char :=
  let n := c.toNat
  if n = 0x3002 ∨ n = 0xFF61 then ['.']
  else if isSilent c then []
  else if 0xFF01 ≤ n ∧ n ≤ 0xFF5E then Text.lowerChar (Char.ofNat (n - 0xFEE0))
  else Text.lowerChar c

/-- A character that no domain has. -/
def deniedInDomain (c : Char) : Bool :=
  let n := c.toNat
  n ≤ 0x20 || (0x7F ≤ n && n ≤ 0xA0) || "%#/:<>?@[\\]^|".toList.contains c ||
    (0x2000 ≤ n && n ≤ 0x200F) || (0x2028 ≤ n && n ≤ 0x202F) || (0x205F ≤ n && n ≤ 0x206F) ||
    n == 0x3000 || (0xE000 ≤ n && n ≤ 0xF8FF) || (0xFFF0 ≤ n && n ≤ 0xFFFF) || 0xE0000 ≤ n

/-- A label in ASCII.  A label that claims to be encoded has to encode one that needs it. -/
def asciiLabel? (label : List Char) : Option (List Char) :=
  if label.take 4 = "xn--".toList then
    match Punycode.decode? (label.drop 4) with
    | some cs =>
      if cs.any (0x80 ≤ ·.toNat) ∧ ¬ cs.any deniedInDomain ∧ cs.flatMap domainChar = cs then
        some label
      else none
    | none => none
  else if label.any (0x80 ≤ ·.toNat) then some ("xn--".toList ++ Punycode.encode label)
  else some label

/-- A domain in ASCII, in lower case. -/
def asciiDomain? (domain : List Char) : Option (List Char) :=
  let mapped := domain.flatMap domainChar
  if mapped.any deniedInDomain then none
  else ((splitAt '.' mapped).mapM asciiLabel?).map (['.'].intercalate ·)

/-! ## Reading and writing -/

/-- The inside of brackets; `none` when there are none. -/
def bracketed? (cs : List Char) : Option (List Char) :=
  if cs.head? = some '[' then some cs.tail.dropLast else none

/-- The host of a scheme that is known. -/
def Host.parse? (cs : List Char) : Option Host :=
  match bracketed? cs with
  | some inner => if cs.getLast? = some ']' then (ipv6? inner).map .ipv6 else none
  | none => do
    let text ← Utf8.decode? (percentDecode cs)
    let domain ← asciiDomain? text.toList
    if domain = [] then none
    else if endsInNumber domain then (ipv4? domain).map .ipv4
    else some (.domain domain)

/-- The host of a scheme that is not known: kept as it is. -/
def Host.parseOther? (cs : List Char) : Option Host :=
  match bracketed? cs with
  | some inner => if cs.getLast? = some ']' then (ipv6? inner).map .ipv6 else none
  | none =>
    let denied (c : Char) : Bool :=
      c.toNat == 0 || "\t\n\r #/:<>?@[\\]^|".toList.contains c
    if cs.any denied then none else some (.domain (percentEncode isControl cs))

/-- A host in an address. -/
def Host.text : Host → List Char
  | domain name => name
  | ipv4 address => ipv4Text address
  | ipv6 pieces => '[' :: ipv6Text pieces ++ [']']

end Relay.Url

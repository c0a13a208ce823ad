import Relay.Url.Host

/-!
# Addresses

An address is a scheme, then for most schemes a host with an optional user and port, a path, a
query and a fragment.  Reading one brings it into its normal form: blanks at the ends and line
breaks go, the scheme is in lower case, a port that the scheme has anyway is left out, `.` and `..`
are resolved in the path, and what may not stand for itself is percent-encoded.  In the schemes
that browse the web a backslash is a slash, and any number of slashes may stand before the host.
-/

namespace Relay.Url

/-- How an address of a scheme is read. -/
inductive SchemeKind where
  | web
  | file
  | other
  deriving DecidableEq, Repr

/-- The port that a scheme has when none is given. -/
def defaultPort? (scheme : List Char) : Option Nat :=
  match String.ofList scheme with
  | "http" | "ws" => some 80
  | "https" | "wss" => some 443
  | "ftp" => some 21
  | _ => none

/-- How the addresses of a scheme are read. -/
def schemeKind (scheme : List Char) : SchemeKind :=
  if (defaultPort? scheme).isSome then .web
  else if scheme = "file".toList then .file
  else .other

/-- The way to something at an address. -/
inductive Route where
  | segments (names : List (List Char))
  /-- A text without a structure. -/
  | plain (text : List Char)
  deriving DecidableEq, Repr

/-- The user of an address, with an optional password. -/
structure User where
  name : List Char
  password : Option (List Char)
  deriving DecidableEq, Repr

/-- An address in normal form. -/
structure Address where
  scheme : List Char
  /-- The address has a place for a host, be it empty. -/
  hasAuthority : Bool
  user : Option User
  host : Option Host
  port : Option Nat
  route : Route
  query : Option (List Char)
  fragment : Option (List Char)
  deriving DecidableEq, Repr

/-! ## Scheme -/

/-- The characters without those that are left out wherever they stand, and without blanks at the
ends. -/
def cleaned (cs : List Char) : List Char :=
  let outer (c : Char) : Bool := c.toNat ≤ 0x20
  let trimmed := ((cs.dropWhile outer).reverse.dropWhile outer).reverse
  trimmed.filter fun c => c != '\t' && c != '\n' && c != '\r'

/-- The scheme in front of a colon, and what follows it. -/
def scheme? (cs : List Char) : Option (List Char × List Char) :=
  let isSchemeChar (c : Char) : Bool := c.isAlphanum || c == '+' || c == '-' || c == '.'
  let front := cs.takeWhile isSchemeChar
  match front, cs.drop front.length with
  | c :: _, ':' :: rest => if c.isAlpha then some (front.map Char.toLower, rest) else none
  | _, _ => none

/-! ## Authority -/

/-- A slash, or what counts as one. -/
def isSlash (k : SchemeKind) (c : Char) : Bool := c == '/' || (k != .other && c == '\\')

/-- The character ends the host and what belongs to it. -/
def endsAuthority (k : SchemeKind) (c : Char) : Bool := isSlash k c || c == '?' || c == '#'

/-- The user in front of the last `@`, and what follows it. -/
def splitUser (authority : List Char) : Option (List Char) × List Char :=
  if authority.contains '@' then
    let host := (authority.reverse.takeWhile (· != '@')).reverse
    (some (authority.take (authority.length - host.length - 1)), host)
  else (none, authority)

/-- The user that a text names, if it names one. -/
def User.parse? (cs : List Char) : Option User :=
  let name := cs.takeWhile (· != ':')
  let password := cs.drop (name.length + 1)
  if name = [] ∧ password = [] then none
  else
    some ⟨percentEncode encodedInUser name,
      if password = [] then none else some (percentEncode encodedInUser password)⟩

/-- The host in front of a colon outside brackets, and what follows from the colon on. -/
def splitPort (inBrackets : Bool) : List Char → List Char × List Char
  | [] => ([], [])
  | c :: cs =>
    if c = ':' ∧ !inBrackets then ([], c :: cs)
    else
      let inBrackets := c == '[' || (inBrackets && c != ']')
      let (host, rest) := splitPort inBrackets cs
      (c :: host, rest)

/-- A port after its colon: the outer `none` refuses it. -/
def port? (scheme cs : List Char) : Option (Option Nat) :=
  match cs with
  | [] => some none
  | [':'] => some none
  | _ :: ds =>
    match Numeral.digits? ds with
    | some n =>
      if n ≤ 65535 then some (if defaultPort? scheme = some n then none else some n) else none
    | none => none

/-- User, host and port of an address. -/
def authority? (scheme : List Char) (k : SchemeKind) (cs : List Char) :
    Option (Option User × Option Host × Option Nat) := do
  let (user, rest) := splitUser cs
  let (host, port) := splitPort false rest
  if host = [] ∧ (k = .web ∨ port ≠ [] ∨ user = some []) then none
  else
    let host ←
      if host = [] then some none
      else ((if k = .other then Host.parseOther? else Host.parse?) host).map some
    let port ← port? scheme port
    return (user.bind User.parse?, host, port)

/-! ## Path -/

/-- A segment that names the place it stands in. -/
def isHere (s : List Char) : Bool := s.map Char.toLower == ['.'] || s.map Char.toLower == "%2e".toList

/-- A segment that names the place above. -/
def isAbove (s : List Char) : Bool :=
  let s := s.map Char.toLower
  s == "..".toList || s == ".%2e".toList || s == "%2e.".toList || s == "%2e%2e".toList

/-- A letter and a colon or bar: the name of a drive. -/
def isDrive (s : List Char) : Bool :=
  match s with
  | [c, d] => c.isAlpha && (d == ':' || d == '|')
  | _ => false

/-- The segments without the last one; the name of a drive in front stays. -/
def shorten (k : SchemeKind) (names : List (List Char)) : List (List Char) :=
  match names with
  | [s] => if k = .file ∧ isDrive s then [s] else []
  | _ => names.dropLast

/-- Adds segments in order to those before them. -/
def addSegments (k : SchemeKind) : List (List Char) → List (List Char) → List (List Char)
  | names, [] => names
  | names, s :: rest =>
    let isLast := rest.isEmpty
    let names :=
      if isAbove s then if isLast then shorten k names ++ [[]] else shorten k names
      else if isHere s then if isLast then names ++ [[]] else names
      else if k = .file ∧ names = [] ∧ isDrive s then [s.take 1 ++ [':']]
      else names ++ [s]
    addSegments k names rest

/-- The pieces between slashes. -/
def splitSlashes (k : SchemeKind) : List Char → List (List Char)
  | [] => [[]]
  | c :: cs =>
    if isSlash k c then [] :: splitSlashes k cs
    else
      match splitSlashes k cs with
      | [] => [[c]]
      | piece :: pieces => (c :: piece) :: pieces

/-- The segments of a path; a slash in front starts the first of them. -/
def segments (k : SchemeKind) (cs : List Char) : List (List Char) :=
  let body := match cs with
    | c :: rest => if isSlash k c then rest else cs
    | [] => []
  let names := addSegments k [] ((splitSlashes k body).map (percentEncode encodedInPath))
  if k = .file then
    -- Empty names in front of a path of files mean nothing.
    match names.dropWhile (· == []) with
    | [] => [[]]
    | names => names
  else names

/-! ## Whole addresses -/

/-- The front of a text up to a query or a fragment, then these. -/
def splitEnd (cs : List Char) : List Char × Option (List Char) × Option (List Char) :=
  let front := cs.takeWhile (· != '#')
  let fragment := if front.length < cs.length then some (cs.drop (front.length + 1)) else none
  let path := front.takeWhile (· != '?')
  let query := if path.length < front.length then some (front.drop (path.length + 1)) else none
  (path, query, fragment)

/-- The address of a scheme with a place for a host; `cs` starts with the user or host. -/
def withAuthority? (scheme : List Char) (k : SchemeKind) (cs : List Char) : Option Address := do
  let front := cs.takeWhile (!endsAuthority k ·)
  let (path, query, fragment) := splitEnd (cs.drop front.length)
  let (user, host, port) ← authority? scheme k front
  return {
    scheme
    hasAuthority := true
    user
    host
    port
    route := .segments (if k = .other ∧ path = [] then [] else segments k path)
    query := query.map (percentEncode (encodedInQuery (k != .other)))
    fragment := fragment.map (percentEncode encodedInFragment) }

/-- The address of a file: a host only after two slashes, and none that is a drive or this
machine. -/
def fileAddress? (cs : List Char) : Option Address := do
  let scheme := "file".toList
  let slashes := (cs.takeWhile (isSlash .file)).length
  let front := (cs.drop 2).takeWhile (!endsAuthority .file ·)
  let named := slashes = 2 ∧ front ≠ [] ∧ ¬ isDrive front
  let host ← if named then (Host.parse? front).map some else some none
  let rest := if named then cs.drop (2 + front.length) else if 2 ≤ slashes then cs.drop 2 else cs
  let (path, query, fragment) := splitEnd rest
  return {
    scheme
    hasAuthority := true
    user := none
    host := if host = some (.domain "localhost".toList) then none else host
    port := none
    route := .segments (segments .file path)
    query := query.map (percentEncode (encodedInQuery true))
    fragment := fragment.map (percentEncode encodedInFragment) }

/-- The address of a scheme without a place for a host. -/
def hostless (scheme cs : List Char) : Address :=
  let (path, query, fragment) := splitEnd cs
  { scheme
    hasAuthority := false
    user := none
    host := none
    port := none
    route :=
      if path.head? = some '/' then .segments (segments .other path)
      else .plain (percentEncode isControl path)
    query := query.map (percentEncode (encodedInQuery false))
    fragment := fragment.map (percentEncode encodedInFragment) }

/-- The address that a text writes, if it writes one. -/
def parse? (text : String) : Option Address := do
  let (scheme, rest) ← scheme? (cleaned text.toList)
  match schemeKind scheme with
  | .web => withAuthority? scheme .web (rest.dropWhile (isSlash .web))
  | .file => fileAddress? rest
  | .other =>
    match rest with
    | '/' :: '/' :: rest => withAuthority? scheme .other rest
    | _ => some (hostless scheme rest)

/-- A user in front of a host. -/
def User.text (u : User) : List Char :=
  u.name ++ (u.password.map (':' :: ·)).getD [] ++ ['@']

/-- A route in an address.  Without a host, two slashes in front would ask for one. -/
def Route.text (hasAuthority : Bool) : Route → List Char
  | .plain text => text
  | .segments names =>
    (if !hasAuthority && 1 < names.length && names.head? == some [] then ['/', '.'] else []) ++
      names.flatMap ('/' :: ·)

/-- The text of an address. -/
def Address.text (a : Address) : String :=
  String.ofList (a.scheme ++ [':'] ++
    (if a.hasAuthority then
      ['/', '/'] ++ (a.user.map User.text).getD [] ++ (a.host.map Host.text).getD [] ++
        (a.port.map fun n => ':' :: Nat.toDigits 10 n).getD []
    else []) ++
    a.route.text a.hasAuthority ++
    (a.query.map ('?' :: ·)).getD [] ++ (a.fragment.map ('#' :: ·)).getD [])

end Relay.Url

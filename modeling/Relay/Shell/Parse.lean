import Relay.Shell.Script

/-!
# Reading shell scripts

Readers go through a source, a text with its line number, and give back what they leave.  A script
is read one complete line of commands at a time, since the commands before a mistake are still run.
The readers that call each other take fuel; every call passes a character or ends, so a multiple of
the length is enough.
-/

namespace Relay.Shell

/-- What is left of a script, and its line number. -/
structure Source where
  rest : Chars
  line : Nat
  deriving Repr, Inhabited

namespace Source

/-- The source after its first character. -/
def tail (s : Source) : Source :=
  match s.rest with
  | [] => s
  | c :: cs => ⟨cs, if c = '\n' then s.line + 1 else s.line⟩

/-- The source after some characters. -/
def skip : Nat → Source → Source
  | 0, s => s
  | n + 1, s => skip n s.tail

end Source

/-- What is wrong with a script. -/
inductive Mistake where
  | unterminatedQuote
  | missingBrace
  | badSubstitution
  | badName
  /-- A token in the wrong place, and the one that was wanted. -/
  | unexpected (token : Chars) (wanted : Option Chars)
  deriving DecidableEq, Repr, Inhabited

/-- A mistake and its line. -/
structure ParseError where
  mistake : Mistake
  line : Nat
  deriving DecidableEq, Repr, Inhabited

/-- The text for a mistake. -/
def Mistake.text : Mistake → Chars
  | .unterminatedQuote => "Syntax error: Unterminated quoted string".toList
  | .missingBrace => "Syntax error: Missing '\x7d'".toList
  | .badSubstitution => "Bad substitution".toList
  | .badName => "Syntax error: Bad for loop variable".toList
  | .unexpected token none => "Syntax error: ".toList ++ token ++ " unexpected".toList
  | .unexpected token (some wanted) =>
    "Syntax error: ".toList ++ token ++ " unexpected (expecting ".toList ++ wanted ++ [')']

/-- Fails at the source's line. -/
def Source.fail {α : Type} (s : Source) (m : Mistake) : Except ParseError α := .error ⟨m, s.line⟩

/-! ## Characters -/

/-- A blank inside a line. -/
def isBlankChar (c : Char) : Bool := c == ' ' || c == '\t'

/-- A character that ends a word outside quotes. -/
def endsWord (c : Char) : Bool :=
  isBlankChar c || c == '\n' || c == ';' || c == '&' || c == '|' || c == '<' || c == '>' ||
    c == '(' || c == ')'

/-- A character that a name may start with. -/
def isNameStart (c : Char) : Bool := c.isAlpha || c == '_'

/-- A character that a name may go on with. -/
def isNameChar (c : Char) : Bool := c.isAlphanum || c == '_'

/-- A parameter with a one-character name. -/
def isSpecialParameter (c : Char) : Bool :=
  c == '@' || c == '*' || c == '#' || c == '?' || c == '-' || c == '$' || c == '!'

/-- A name of a variable. -/
def isName : Chars → Bool
  | [] => false
  | c :: cs => isNameStart c && cs.all isNameChar

/-! ## Words -/

/-- The character around a command whose output is used. -/
def backquote : Char := Char.ofNat 0x60

/-- Where parts of a word stand. -/
inductive Context where
  | plain
  | quoted
  /-- Between the braces of an expansion. -/
  | braced
  /-- Between the braces of an expansion inside quotes. -/
  | bracedQuoted
  /-- In a document, or in an integer expression: quotes mean nothing. -/
  | document
  deriving DecidableEq, Repr, Inhabited

namespace Context

/-- The character ends the parts. -/
def stops (k : Context) (c : Char) : Bool :=
  match k with
  | .plain => endsWord c
  | .quoted => c == '"'
  | .braced | .bracedQuoted => c == '}'
  | .document => false

/-- Expansions here are neither split nor matched against names. -/
def isQuoted : Context → Bool
  | .plain | .braced => false
  | .quoted | .bracedQuoted | .document => true

/-- A backslash keeps this character from its meaning. -/
def escapes (k : Context) (c : Char) : Bool :=
  match k with
  | .plain | .braced => true
  | .quoted => c == '$' || c == backquote || c == '"' || c == '\\'
  | .bracedQuoted => c == '$' || c == backquote || c == '"' || c == '\\' || c == '}'
  | .document => c == '$' || c == backquote || c == '\\'

/-- A character without meaning of its own. -/
def isOrdinary (k : Context) (c : Char) : Bool :=
  !(k.stops c) && c != '\\' && c != '$' && c != backquote &&
    (k == .document || c != '"') && (k.isQuoted || c != '\'')

end Context

/-- What stands before a closing parenthesis, with those inside matched and quotes respected;
`quote` is the quote that is open. -/
def takeBalanced (depth : Nat) (quote : Option Char) : Chars → Option (Chars × Chars)
  | [] => none
  | '\\' :: c :: cs =>
    if quote = some '\'' then
      if c = '\'' then (takeBalanced depth none cs).map fun (a, b) => ('\\' :: c :: a, b)
      else (takeBalanced depth quote cs).map fun (a, b) => ('\\' :: c :: a, b)
    else (takeBalanced depth quote cs).map fun (a, b) => ('\\' :: c :: a, b)
  | c :: cs =>
    let go (depth : Nat) (quote : Option Char) : Option (Chars × Chars) :=
      (takeBalanced depth quote cs).map fun (a, b) => (c :: a, b)
    match quote with
    | some q => go depth (if c = q then none else some q)
    | none =>
      if c = '\'' ∨ c = '"' then go depth (some c)
      else if c = '(' then go (depth + 1) none
      else if c = ')' then
        match depth with
        | 0 => some ([], cs)
        | d + 1 => go d none
      else go depth none

/-- What stands before a closing backquote, where a backslash keeps some characters. -/
def takeBackquoted : Chars → Option (Chars × Chars)
  | [] => none
  | '\\' :: c :: cs =>
    let kept := if c = backquote ∨ c = '\\' ∨ c = '$' then [c] else ['\\', c]
    (takeBackquoted cs).map fun (a, b) => (kept ++ a, b)
  | c :: cs =>
    if c = backquote then some ([], cs) else (takeBackquoted cs).map fun (a, b) => (c :: a, b)

/-- The source after the text that leaves `rest`. -/
def Source.upTo (s : Source) (rest : Chars) : Source := s.skip (s.rest.length - rest.length)

/-- Reads the change of `${name…}`, up to its word. -/
def change? : Chars → Option (Change × Nat)
  | ':' :: '-' :: _ => some (.default true, 2)
  | ':' :: '=' :: _ => some (.assign true, 2)
  | ':' :: '+' :: _ => some (.alternative true, 2)
  | ':' :: '?' :: _ => some (.demand true, 2)
  | '-' :: _ => some (.default false, 1)
  | '=' :: _ => some (.assign false, 1)
  | '+' :: _ => some (.alternative false, 1)
  | '?' :: _ => some (.demand false, 1)
  | '%' :: '%' :: _ => some (.trim true true, 2)
  | '%' :: _ => some (.trim true false, 1)
  | '#' :: '#' :: _ => some (.trim false true, 2)
  | '#' :: _ => some (.trim false false, 1)
  | _ => none

/-- The name at the front of an expansion. -/
def parameterName : Chars → Chars
  | [] => []
  | c :: cs =>
    if isNameStart c then c :: cs.takeWhile isNameChar
    else if c.isDigit then c :: cs.takeWhile Char.isDigit
    else if isSpecialParameter c then [c]
    else []

mutual

/-- Reads the parts of a word up to what ends them. -/
def parts : Nat → Context → Source → Except ParseError (Word × Source)
  | 0, _, s => s.fail .unterminatedQuote
  | fuel + 1, k, s =>
    match s.rest with
    | [] =>
      match k with
      | .plain | .document => .ok ([], s)
      | .quoted => s.fail .unterminatedQuote
      | .braced | .bracedQuoted => s.fail .missingBrace
    | c :: cs =>
      if k.stops c then .ok ([], s)
      else if c = '\\' then
        match cs with
        | [] => .ok ([.text ['\\'] true], s.tail)
        | d :: _ =>
          if d = '\n' then parts fuel k (s.skip 2)
          else do
            let kept := if k.escapes d then [d] else ['\\', d]
            let (ps, s) ← parts fuel k (s.skip 2)
            return (.text kept true :: ps, s)
      else if c = '\'' ∧ !k.isQuoted then
        let body := cs.takeWhile (· != '\'')
        if body.length = cs.length then s.fail .unterminatedQuote
        else do
          let (ps, s) ← parts fuel k (s.skip (body.length + 2))
          return (.text body true :: ps, s)
      else if c = '"' ∧ k ≠ .document then do
        let (inner, s) ← parts fuel .quoted s.tail
        let (ps, s) ← parts fuel k s.tail
        return (.text [] true :: inner ++ ps, s)
      else if c = backquote then
        match takeBackquoted cs with
        | none => s.fail .unterminatedQuote
        | some (body, rest) => do
          let (ps, s) ← parts fuel k (s.upTo rest)
          return (.output body k.isQuoted :: ps, s)
      else if c = '$' then do
        let (p, s) ← dollar fuel k s.tail
        let (ps, s) ← parts fuel k s
        return (p :: ps, s)
      else
        let run := c :: cs.takeWhile k.isOrdinary
        do
          let (ps, s) ← parts fuel k (s.skip run.length)
          return (.text run k.isQuoted :: ps, s)

/-- Reads an expansion after its dollar sign. -/
def dollar : Nat → Context → Source → Except ParseError (Part × Source)
  | 0, _, s => s.fail .unterminatedQuote
  | fuel + 1, k, s =>
    match s.rest with
    | '(' :: '(' :: cs =>
      match takeBalanced 0 none cs with
      | some (body, ')' :: rest) => do
        let (ps, _) ← parts fuel .document ⟨body, s.line⟩
        return (.arithmetic ps k.isQuoted, s.upTo rest)
      | _ =>
        match takeBalanced 0 none ('(' :: cs) with
        | some (body, rest) => .ok (.output body k.isQuoted, s.upTo rest)
        | none => s.fail (.unexpected "end of file".toList (some "\")\"".toList))
    | '(' :: cs =>
      match takeBalanced 0 none cs with
      | some (body, rest) => .ok (.output body k.isQuoted, s.upTo rest)
      | none => s.fail (.unexpected "end of file".toList (some "\")\"".toList))
    | '{' :: '#' :: c :: cs =>
      let name := parameterName (c :: cs)
      if name ≠ [] ∧ ((c :: cs).drop name.length).head? = some '}' then
        .ok (.value name .length [] k.isQuoted, s.skip (name.length + 3))
      else braces fuel k s.tail
    | '{' :: _ => braces fuel k s.tail
    | c :: cs =>
      if c.isDigit then .ok (.value [c] .none [] k.isQuoted, s.tail)
      else
        let name := parameterName (c :: cs)
        if name = [] then .ok (.text ['$'] k.isQuoted, s)
        else .ok (.value name .none [] k.isQuoted, s.skip name.length)
    | [] => .ok (.text ['$'] k.isQuoted, s)

/-- Reads an expansion after its brace. -/
def braces : Nat → Context → Source → Except ParseError (Part × Source)
  | 0, _, s => s.fail .missingBrace
  | fuel + 1, k, s =>
    let name := parameterName s.rest
    let s := s.skip name.length
    if name = [] then s.fail .badSubstitution
    else if s.rest.head? = some '}' then .ok (.value name .none [] k.isQuoted, s.tail)
    else
      match change? s.rest with
      | none => s.fail .badSubstitution
      | some (change, n) => do
        let inner : Context :=
          match change with
          | .trim _ _ => .braced
          | _ => if k.isQuoted then .bracedQuoted else .braced
        let (word, s) ← parts fuel inner (s.skip n)
        return (.value name change word k.isQuoted, s.tail)

end

/-- Enough fuel for the readers of a text. -/
def Source.fuel (s : Source) : Nat := 8 * s.rest.length + 16

/-- Reads a word. -/
def word (s : Source) : Except ParseError (Word × Source) := parts s.fuel .plain s

/-! ## Tokens -/

/-- The source at its next token: blanks, joined lines and a comment are passed. -/
def skipBlanksFrom : Nat → Source → Source
  | 0, s => s
  | fuel + 1, s =>
    match s.rest with
    | ' ' :: _ => skipBlanksFrom fuel s.tail
    | '\t' :: _ => skipBlanksFrom fuel s.tail
    | '\\' :: '\n' :: _ => skipBlanksFrom fuel (s.skip 2)
    | '#' :: cs => s.skip ((cs.takeWhile (· != '\n')).length + 1)
    | _ => s

/-- The source at its next token. -/
def Source.token (s : Source) : Source := skipBlanksFrom s.rest.length s

/-- The source at its next token that is not a line break. -/
def skipLinesFrom : Nat → Source → Source
  | 0, s => s.token
  | fuel + 1, s =>
    let s := s.token
    match s.rest with
    | '\n' :: _ => skipLinesFrom fuel s.tail
    | _ => s

/-- The source at its next token that is not a line break. -/
def Source.skipLines (s : Source) : Source := skipLinesFrom s.rest.length s

/-- The characters of the next word, as written. -/
def Source.ahead (s : Source) : Chars := s.rest.takeWhile (!endsWord ·)

/-- The words that have a meaning where a command may start. -/
def reserved : List Chars :=
  ["then", "else", "elif", "fi", "do", "done", "esac", "in", "\x7d"].map String.toList

/-- The words that open a command of their own. -/
def openers : List Chars :=
  ["if", "while", "until", "for", "case", "\x7b", "!"].map String.toList

/-- The next token as a mistake names it. -/
def Source.tokenName (s : Source) : Chars :=
  match s.rest with
  | [] => "end of file".toList
  | '\n' :: _ => "newline".toList
  | '&' :: '&' :: _ => "\"&&\"".toList
  | '|' :: '|' :: _ => "\"||\"".toList
  | ';' :: ';' :: _ => "\";;\"".toList
  | c :: _ =>
    if c = '<' ∨ c = '>' then "redirection".toList
    else if endsWord c then ['"', c, '"']
    else if reserved.contains s.ahead ∨ openers.contains s.ahead then '"' :: s.ahead ++ ['"']
    else "word".toList

/-- Fails at a token in the wrong place. -/
def Source.surprise {α : Type} (s : Source) (wanted : Option String) : Except ParseError α :=
  s.fail (.unexpected s.tokenName (wanted.map fun w => '"' :: w.toList ++ ['"']))

/-- Takes a reserved word. -/
def Source.expect (s : Source) (w : String) : Except ParseError Source :=
  let s := s.skipLines
  if s.ahead = w.toList then .ok (s.skip w.length) else s.surprise (some w)

/-! ## Redirections -/

/-- The lines of a document up to its end mark, and what follows. -/
def takeDocument (mark : Chars) (strip : Bool) : Nat → Chars → Chars × Chars
  | 0, cs => ([], cs)
  | fuel + 1, cs =>
    let raw := cs.takeWhile (· != '\n')
    let line := if strip then raw.dropWhile (· == '\t') else raw
    let rest := cs.drop (raw.length + 1)
    if line = mark ∨ cs = [] then ([], rest)
    else
      let (body, rest) := takeDocument mark strip fuel rest
      (line ++ '\n' :: body, rest)

/-- The characters of a word without its quotes, and whether it had any. -/
def plainWord (w : Word) : Chars × Bool :=
  w.foldl (fun (cs, q) p =>
    match p with
    | .text t quoted => (cs ++ t, q || quoted)
    | _ => (cs, q)) ([], false)

/-- Reads a document.  Its lines follow the current one; they are taken out of the source. -/
def document (fd : Nat) (strip : Bool) (s : Source) :
    Except ParseError (Redirection × Source) := do
  let (w, s) ← word s.token
  let (mark, quoted) := plainWord w
  let before := s.rest.takeWhile (· != '\n')
  let (body, after) := takeDocument mark strip (s.rest.length + 1) (s.rest.drop (before.length + 1))
  let s : Source := ⟨before ++ '\n' :: after, s.line⟩
  if quoted then return (.document fd [.text body true], s)
  else do
    let (ps, _) ← parts (8 * body.length + 16) .document ⟨body, s.line⟩
    return (.document fd ps, s)

/-- Reads a redirection, if one stands here. -/
def redirection? (s : Source) : Except ParseError (Option (Redirection × Source)) :=
  let digits := s.rest.takeWhile Char.isDigit
  let t := s.skip digits.length
  let number (default : Nat) : Nat :=
    if digits = [] then default
    else digits.foldl (fun n c => n * 10 + (c.toNat - 48)) 0
  let target (make : Word → Redirection) (s : Source) :
      Except ParseError (Option (Redirection × Source)) := do
    let s := s.token
    let (w, t) ← word s
    if w.isEmpty then s.surprise none else return some (make w, t)
  match t.rest with
  | '<' :: '<' :: '-' :: _ => (document (number 0) true (t.skip 3)).map some
  | '<' :: '<' :: _ => (document (number 0) false (t.skip 2)).map some
  | '<' :: '&' :: _ => target (.duplicate (number 0)) (t.skip 2)
  | '<' :: '>' :: _ => target (.input (number 0)) (t.skip 2)
  | '<' :: _ => target (.input (number 0)) t.tail
  | '>' :: '>' :: _ => target (fun w => .output (number 1) w true) (t.skip 2)
  | '>' :: '&' :: _ => target (.duplicate (number 1)) (t.skip 2)
  | '>' :: '|' :: _ => target (fun w => .output (number 1) w false) (t.skip 2)
  | '>' :: _ => target (fun w => .output (number 1) w false) t.tail
  | _ => .ok none

/-- Reads redirections. -/
def redirections : Nat → Source → Except ParseError (List Redirection × Source)
  | 0, s => .ok ([], s)
  | fuel + 1, s => do
    match ← redirection? s.token with
    | none => return ([], s)
    | some (r, s) =>
      let (rs, s) ← redirections fuel s
      return (r :: rs, s)

/-! ## Commands -/

/-- A word that assigns: the name, and the word after the equals sign. -/
def assignment? (w : Word) : Option (Chars × Word) :=
  match w with
  | .text cs false :: ps =>
    let name := cs.takeWhile isNameChar
    if isName name ∧ (cs.drop name.length).head? = some '=' then
      let value := cs.drop (name.length + 1)
      some (name, if value = [] then ps else .text value false :: ps)
    else none
  | _ => none

/-- Reads the words and redirections of a simple command. -/
def simpleFrom : Nat → List (Chars × Word) → List Word → List Redirection → Source →
    Except ParseError (List (Chars × Word) × List Word × List Redirection × Source)
  | 0, as, ws, rs, s => .ok (as.reverse, ws.reverse, rs.reverse, s)
  | fuel + 1, as, ws, rs, s => do
    let t := s.token
    match ← redirection? t with
    | some (r, s) => simpleFrom fuel as ws (r :: rs) s
    | none =>
      let (w, u) ← word t
      if w.isEmpty then return (as.reverse, ws.reverse, rs.reverse, t)
      else
        match ws, assignment? w with
        | [], some a => simpleFrom fuel (a :: as) ws rs u
        | _, _ => simpleFrom fuel as (w :: ws) rs u

/-- Reads the words after `in`, up to the end of the line or a semicolon. -/
def wordsFrom : Nat → Source → Except ParseError (List Word × Source)
  | 0, s => .ok ([], s)
  | fuel + 1, s => do
    let (w, t) ← word s.token
    if w.isEmpty then return ([], s.token)
    else
      let (ws, s) ← wordsFrom fuel t
      return (w :: ws, s)

/-- Reads the patterns of a branch, divided by bars, up to the parenthesis. -/
def patternsFrom : Nat → Source → Except ParseError (List Word × Source)
  | 0, s => s.surprise (some ")")
  | fuel + 1, s => do
    let (w, t) ← word s.token
    let t := t.token
    match t.rest with
    | '|' :: _ => do
      let (ws, s) ← patternsFrom fuel t.tail
      return (w :: ws, s)
    | ')' :: _ => return ([w], t.tail)
    | _ => t.surprise (some ")")

/-- Puts one command after another. -/
def sequenceOf (a b : Script) : Script :=
  match a, b with
  | .nothing, b => b
  | a, .nothing => a
  | a, b => .sequence a b

mutual

/-- Reads commands joined by `&&` and `||`. -/
def andOr : Nat → Source → Except ParseError (Script × Source)
  | 0, s => s.surprise none
  | fuel + 1, s => do
    let (first, s) ← pipelineOf fuel s
    andOrFrom fuel first s

/-- Goes on reading after a command that may be joined to others. -/
def andOrFrom : Nat → Script → Source → Except ParseError (Script × Source)
  | 0, _, s => s.surprise none
  | fuel + 1, first, s =>
    let t := s.token
    match t.rest with
    | '&' :: '&' :: _ => do
      let (second, s) ← pipelineOf fuel (t.skip 2).skipLines
      andOrFrom fuel (.both first second) s
    | '|' :: '|' :: _ => do
      let (second, s) ← pipelineOf fuel (t.skip 2).skipLines
      andOrFrom fuel (.either first second) s
    | _ => .ok (first, t)

/-- Reads commands joined by bars. -/
def pipelineOf : Nat → Source → Except ParseError (Script × Source)
  | 0, s => s.surprise none
  | fuel + 1, s => do
    let t := s.token
    if t.ahead = ['!'] then
      let (cs, s) ← pipeFrom fuel (t.skip 1).token
      return (.pipeline cs true, s)
    else
      let (cs, s) ← pipeFrom fuel t
      match cs with
      | [c] => return (c, s)
      | cs => return (.pipeline cs false, s)

/-- Reads the commands of a pipeline. -/
def pipeFrom : Nat → Source → Except ParseError (List Script × Source)
  | 0, s => s.surprise none
  | fuel + 1, s => do
    let (c, s) ← command fuel s
    let t := s.token
    match t.rest with
    | '|' :: '|' :: _ => return ([c], t)
    | '|' :: _ =>
      let (cs, s) ← pipeFrom fuel t.tail.skipLines
      return (c :: cs, s)
    | _ => return ([c], t)

/-- Reads commands on any number of lines, up to a word that ends them. -/
def block : Nat → Source → Except ParseError (Script × Source)
  | 0, s => s.surprise none
  | fuel + 1, s => do
    let s := s.skipLines
    let ends := s.rest.isEmpty || s.rest.head? == some ')' || s.rest.take 2 == [';', ';'] ||
      reserved.contains s.ahead
    if ends then return (.nothing, s)
    else
      let (first, s) ← andOr fuel s
      let s := s.token
      match s.rest with
      | ';' :: ';' :: _ => return (first, s)
      | ';' :: _ =>
        let (more, s) ← block fuel s.tail
        return (sequenceOf first more, s)
      | '&' :: _ =>
        let (more, s) ← block fuel s.tail
        return (sequenceOf (.background first) more, s)
      | '\n' :: _ =>
        let (more, s) ← block fuel s
        return (sequenceOf first more, s)
      | _ => return (first, s)

/-- Reads a block that may not be empty. -/
def body : Nat → Source → Except ParseError (Script × Source)
  | 0, s => s.surprise none
  | fuel + 1, s => do
    let (b, t) ← block fuel s
    match b with
    | .nothing => t.surprise none
    | b => return (b, t)

/-- Reads the rest of a choice, after `if` or `elif`. -/
def choiceFrom : Nat → Source → Except ParseError (Script × Script × Script × Source)
  | 0, s => s.surprise none
  | fuel + 1, s => do
    let (condition, s) ← body fuel s
    let s ← s.expect "then"
    let (yes, s) ← body fuel s
    let s := s.skipLines
    if s.ahead = "elif".toList then
      let (c, y, n, s) ← choiceFrom fuel (s.skip 4)
      return (condition, yes, .choice c y n [], s)
    else if s.ahead = "else".toList then
      let (no, s) ← body fuel (s.skip 4)
      let s ← s.expect "fi"
      return (condition, yes, no, s)
    else
      let s ← s.expect "fi"
      return (condition, yes, .nothing, s)

/-- Reads the branches of a selection up to `esac`. -/
def branchesFrom : Nat → Source → Except ParseError (List (List Word × Script) × Source)
  | 0, s => s.surprise (some "esac")
  | fuel + 1, s => do
    let s := s.skipLines
    if s.ahead = "esac".toList then return ([], s.skip 4)
    else
      let s := if s.rest.head? = some '(' then s.tail else s
      let (patterns, s) ← patternsFrom fuel s
      let (b, s) ← block fuel s
      let s := s.skipLines
      match s.rest with
      | ';' :: ';' :: _ =>
        let (more, s) ← branchesFrom fuel (s.skip 2)
        return ((patterns, b) :: more, s)
      | _ =>
        let s ← s.expect "esac"
        return ([(patterns, b)], s)

/-- Reads a command. -/
def command : Nat → Source → Except ParseError (Script × Source)
  | 0, s => s.surprise none
  | fuel + 1, s => do
    let s := s.token
    let w := String.ofList s.ahead
    if s.rest.head? = some '(' then
      let (b, s) ← body fuel s.tail
      let s := s.skipLines
      if s.rest.head? ≠ some ')' then s.surprise (some ")")
      else
        let (rs, s) ← redirections fuel s.tail
        return (.subshell b rs, s)
    else if w = "\x7b" then
      let (b, s) ← body fuel s.tail
      let s ← s.expect "\x7d"
      let (rs, s) ← redirections fuel s
      return (.group b rs, s)
    else if w = "if" then
      let (c, y, n, s) ← choiceFrom fuel (s.skip 2)
      let (rs, s) ← redirections fuel s
      return (.choice c y n rs, s)
    else if w = "while" ∨ w = "until" then
      let (c, s) ← body fuel (s.skip 5)
      let s ← s.expect "do"
      let (b, s) ← body fuel s
      let s ← s.expect "done"
      let (rs, s) ← redirections fuel s
      return (.loop (w == "while") c b rs, s)
    else if w = "for" then
      let s := (s.skip 3).token
      let name := s.ahead
      if !isName name then s.fail .badName
      else
        let s := (s.skip name.length).skipLines
        let (words, s) ←
          if s.ahead = "in".toList then do
            let (ws, s) ← wordsFrom fuel (s.skip 2)
            pure (some ws, s)
          else pure (none, s)
        let s := if s.rest.head? = some ';' then s.tail else s
        let s ← s.expect "do"
        let (b, s) ← body fuel s
        let s ← s.expect "done"
        let (rs, s) ← redirections fuel s
        return (.each name words b rs, s)
    else if w = "case" then
      let (subject, s) ← word (s.skip 4).token
      let s ← s.expect "in"
      let (branches, s) ← branchesFrom fuel s
      let (rs, s) ← redirections fuel s
      return (.cases subject branches rs, s)
    else if reserved.contains s.ahead then s.surprise none
    else
      let after := (s.skip w.length).token
      if isName s.ahead ∧ after.rest.head? = some '(' ∧ after.tail.token.rest.head? = some ')' then
        let (b, t) ← command fuel after.tail.token.tail.skipLines
        return (.function s.ahead b, t)
      else
        let (as, ws, rs, t) ← simpleFrom (s.rest.length + 1) [] [] [] s
        if as.isEmpty && ws.isEmpty && rs.isEmpty then t.surprise none
        else return (.simple s.line as ws rs, t)

end

/-- Reads the commands of one line.  `none` at the end of the script. -/
def lineFrom : Nat → Source → Except ParseError (Script × Source)
  | 0, s => s.surprise none
  | fuel + 1, s => do
    let (first, s) ← andOr s.fuel s
    let s := s.token
    let goOn (first : Script) (s : Source) : Except ParseError (Script × Source) := do
      let s := s.token
      match s.rest with
      | [] => return (first, s)
      | '\n' :: _ => return (first, s)
      | _ =>
        let (more, s) ← lineFrom fuel s
        return (sequenceOf first more, s)
    match s.rest with
    | [] => return (first, s)
    | '\n' :: _ => return (first, s.tail)
    | ';' :: ';' :: _ => s.surprise none
    | ';' :: _ => goOn first s.tail
    | '&' :: _ => goOn (.background first) s.tail
    | _ => s.surprise none

/-- Reads the next line that has commands. -/
def nextLine (s : Source) : Except ParseError (Option (Script × Source)) :=
  let s := s.skipLines
  if s.rest.isEmpty then .ok none else (lineFrom (s.rest.length + 1) s).map some

end Relay.Shell

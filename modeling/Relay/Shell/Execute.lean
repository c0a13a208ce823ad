import Relay.Shell.Parse
import Relay.Shell.Pattern
import Relay.Shell.Utility
import Relay.Tool.Capture

/-!
# Running shell scripts

A session runs a script on a disk.  What is written goes where the file descriptor leads: to one of
the two streams, into a pipe, or to a file.  The commands of a pipeline run one after the other,
each reading what the one before it wrote.  The functions that call each other take fuel, which
bounds how long a script may run.
-/

namespace Relay.Shell

open Files (Disk Failure Location)

/-- Where a file descriptor leads. -/
inductive Target where
  | stream (s : Stream)
  | pipe
  | file (l : Location)
  | nothing
  deriving DecidableEq, Repr, Inhabited

/-- A script that is being run. -/
structure Session where
  disk : Disk
  /-- The working directory as the script calls it. -/
  directory : Path
  vars : List (Chars × Chars)
  exported : List Chars
  parameters : List Chars
  name : Chars
  functions : List (Chars × Script)
  status : Nat
  line : Nat
  targets : List (Nat × Target)
  /-- What is left of the input. -/
  input : Bytes
  /-- What the streams got, last first. -/
  written : List (Stream × Bytes)
  /-- What the pipe got, last first. -/
  caught : List Chars
  /-- What to do on a signal or at the end. -/
  traps : List (Chars × Chars)
  /-- Ends at the first command that fails. -/
  strict : Bool
  /-- Complains about parameters that are not set. -/
  careful : Bool
  /-- The current command has used what a script wrote. -/
  substituted : Bool
  /-- The variables that the running function has of its own, with what they were before. -/
  locals : List (Chars × Option Chars)

/-- Why the commands that follow are not run. -/
inductive Flow where
  | exit (status : Nat)
  | killed
  | leave (levels : Nat)
  | again (levels : Nat)
  | ret
  deriving DecidableEq, Repr, Inhabited

/-- A step of a session. -/
abbrev Run := ExceptT Flow (StateM Session)

/-- The number of the session's process. -/
def processNumber : Chars := "4711".toList

/-! ## Variables -/

/-- The value of a variable. -/
def Session.valueOf? (s : Session) (name : Chars) : Option Chars := s.vars.lookup name

/-- The session with a variable set. -/
def Session.setVariable (s : Session) (name value : Chars) : Session :=
  { s with vars := (name, value) :: s.vars.filter (·.1 != name) }

/-- The session without a variable. -/
def Session.unset (s : Session) (name : Chars) : Session :=
  { s with
    vars := s.vars.filter (·.1 != name)
    exported := s.exported.filter (· != name) }

/-- The session after a function that was called in another: the variables that were the
function's own are what they were. -/
def Session.leaveFunction (s before : Session) : Session :=
  let s := s.locals.foldl (fun s (name, value) =>
    match value with
    | some v => s.setVariable name v
    | none => s.unset name) s
  { s with parameters := before.parameters, locals := before.locals }

/-- The value of a parameter; those that stand for all positional ones are joined by blanks. -/
def Session.parameter? (s : Session) (name : Chars) : Option Chars :=
  match name with
  | ['#'] => some (Nat.toDigits 10 s.parameters.length)
  | ['?'] => some (Nat.toDigits 10 s.status)
  | ['$'] => some processNumber
  | ['!'] => none
  | ['-'] => some []
  | ['@'] | ['*'] => if s.parameters.isEmpty then none else some (joinBlank s.parameters)
  | ['0'] => some s.name
  | c :: cs =>
    if c.isDigit then s.parameters[natOf (c :: cs) - 1]? else s.valueOf? name
  | [] => none

/-! ## Writing -/

/-- Writes to a file descriptor; false when it is closed. -/
def Session.emit (s : Session) (fd : Nat) (cs : Chars) : Session × Bool :=
  if cs = [] then (s, true)
  else
    match s.targets.lookup fd with
    | none => (s, false)
    | some .nothing => (s, true)
    | some (.stream t) => ({ s with written := (t, toBytes cs) :: s.written }, true)
    | some .pipe => ({ s with caught := cs :: s.caught }, true)
    | some (.file l) =>
      match s.disk.tree.get? l with
      | some (.file content executable) =>
        let tree := s.disk.tree.insert l (.file (content ++ toBytes cs) executable)
        ({ s with disk := { s.disk with tree } }, true)
      | _ => (s, true)

/-- Writes to a file descriptor. -/
def emit (fd : Nat) (cs : Chars) : Run Bool := do
  let (s, ok) := (← get).emit fd cs
  set s
  return ok

/-- Sets the status. -/
def setStatus (n : Nat) : Run Unit := modify fun s => { s with status := n }

/-- Writes a complaint of the session itself. -/
def complain (cs : Chars) : Run Unit := do
  let s ← get
  let _ ← emit 2 (s.name ++ [':', ' '] ++ Nat.toDigits 10 s.line ++ [':', ' '] ++ cs ++ ['\n'])

/-- Complains and ends the script. -/
def giveUp {α : Type} (cs : Chars) : Run α := do
  complain cs
  throw (.exit 2)

/-! ## Fields -/

/-- What a word expands to, piece by piece. -/
inductive Piece where
  | chars (m : Marked)
  /-- A field ends here. -/
  | divide
  deriving Repr

/-- A text whose characters are all quoted, or all not. -/
def mark (quoted : Bool) (cs : Chars) : Marked := cs.map fun c => (c, quoted)

/-- The pieces of a value that is split at blanks. -/
def splitValue (isSeparator : Char → Bool) (cs : Chars) : List Piece :=
  let (pieces, last) := cs.foldl (fun (ps, cur) c =>
    if isSeparator c then
      (ps ++ (if cur = [] then [] else [Piece.chars (mark false cur)]) ++ [Piece.divide], [])
    else (ps, cur ++ [c])) (([] : List Piece), ([] : Chars))
  pieces ++ (if last = [] then [] else [.chars (mark false last)])

/-- The fields that pieces make: those with a character, and those with a quoted part. -/
def fieldsOf (ps : List Piece) : List Marked :=
  let (fields, cur, open1) := ps.foldl (fun (fields, cur, open1) p =>
    match p with
    | .chars m => (fields, cur ++ m, true)
    | .divide => if open1 then (fields ++ [cur], [], false) else (fields, cur, false))
    (([] : List Marked), ([] : Marked), false)
  if open1 then fields ++ [cur] else fields

/-- The names in a directory that a pattern matches; a leading dot has to be written. -/
def matchingNames (d : Disk) (l : Location) (m : Marked) : List Bytes :=
  (namesIn d l).filter fun n =>
    (n.head? != some Bytes.dot || m.head?.map (·.1) == some '.') &&
      globMatches (glob m) (ofBytes n)

/-- The parts of a pattern between slashes. -/
def splitSlashes (acc : Marked) : Marked → List Marked
  | [] => [acc.reverse]
  | (c, q) :: rest =>
    if c = '/' then acc.reverse :: splitSlashes [] rest else splitSlashes ((c, q) :: acc) rest

/-- The paths that a pattern matches, below paths already matched. -/
def matchingPaths (d : Disk) (found : List Chars) : List Marked → List Chars
  | [] => found
  | part :: rest =>
    let sep : Chars := if rest.isEmpty then [] else ['/']
    let next := found.flatMap fun p =>
      if isPattern part then
        match d.stat (pathOf (if p = [] then ['.'] else p)) with
        | .ok (l, .directory) => (matchingNames d l part).map fun n => p ++ ofBytes n ++ sep
        | _ => []
      else [p ++ part.map (·.1) ++ sep]
    matchingPaths d next rest

/-- The texts of a field: the paths that it matches, or itself. -/
def fieldTexts (d : Disk) (m : Marked) : List Chars :=
  let plain := m.map (·.1)
  if isPattern m then
    let found := (matchingPaths d [[]] (splitSlashes [] m)).filter fun p =>
      d.pathExists (pathOf p)
    if found.isEmpty then [plain] else found
  else [plain]

/-- The text without line breaks at its end. -/
def dropLineEnds (cs : Chars) : Chars := (cs.reverse.dropWhile (· == '\n')).reverse

/-! ## Redirections -/

/-- What the system says of a file that cannot be opened. -/
def openError (e : Failure) (making : Bool) : Chars :=
  match e with
  | .system .noEntry => (if making then "Directory nonexistent" else "No such file").toList
  | e => failureText e

/-- The number of a file descriptor. -/
def descriptor? (cs : Chars) : Option Nat :=
  if cs ≠ [] ∧ cs.all Char.isDigit then some (natOf cs) else none

/-- Points a file descriptor somewhere. -/
def setTarget (fd : Nat) (t : Option Target) : Run Unit :=
  modify fun s =>
    let others := s.targets.filter (·.1 != fd)
    { s with targets := t.elim others fun t => (fd, t) :: others }

/-- Opens a file for writing; the answer tells whether that went well. -/
def openOutput (fd : Nat) (file : Chars) (append : Bool) : Run Bool := do
  let s ← get
  let name := String.ofList file
  if name = "/dev/stdout" then setTarget fd (s.targets.lookup 1); return true
  else if name = "/dev/stderr" then setTarget fd (s.targets.lookup 2); return true
  else
    let old := if append then (s.disk.read (pathOf file)).toOption.getD [] else []
    match s.disk.write (pathOf file) old with
    | .error e =>
      complain ("cannot create ".toList ++ file ++ [':', ' '] ++ openError e true)
      return false
    | .ok disk =>
      set { s with disk }
      match disk.stat (pathOf file) with
      | .ok (l, .file _ _) => setTarget fd (some (.file l))
      | _ => setTarget fd (some .nothing)
      return true

/-- Opens a file for reading; the answer tells whether that went well. -/
def openInput (fd : Nat) (file : Chars) : Run Bool := do
  let s ← get
  match s.disk.read (pathOf file) with
  | .error (.system .isDirectory) => return true
  | .error e =>
    complain ("cannot open ".toList ++ file ++ [':', ' '] ++ openError e false)
    return false
  | .ok content =>
    if fd = 0 then set { s with input := content }
    return true

/-- Points a file descriptor where another one leads, or closes it. -/
def duplicate (fd : Nat) (source : Chars) : Run Bool := do
  if source = ['-'] then setTarget fd none; return true
  else
    match descriptor? source with
    | none =>
      complain "Bad fd number".toList
      return false
    | some n =>
      match (← get).targets.lookup n with
      | some t => setTarget fd (some t); return true
      | none =>
        if n = 0 then return true
        else
          complain (source ++ ": Bad file descriptor".toList)
          return false

/-! ## Calling programs -/

/-- What an executable file is. -/
inductive Executable where
  | program (name : Bytes)
  /-- A file for an interpreter: the interpreter, its argument, and the file. -/
  | scripted (interpreter : Chars) (argument : Option Chars)
  /-- Text that no interpreter is named for. -/
  | plain (content : Bytes)

/-- The interpreter line of a file. -/
def interpreterLine? (content : Bytes) : Option (Chars × Option Chars) :=
  match ofBytes (content.take 255) with
  | '#' :: '!' :: cs =>
    let line := (cs.takeWhile (· != '\n')).dropWhile isBlankChar
    let name := line.takeWhile (!isBlankChar ·)
    let rest := (line.drop name.length).dropWhile isBlankChar
    let rest := (rest.reverse.dropWhile isBlankChar).reverse
    if name = [] then none else some (name, if rest = [] then none else some rest)
  | _ => none

/-- What the file at a path is, if it can be executed. -/
def executable (d : Disk) (path : Chars) : Except Failure Executable :=
  match d.stat (pathOf path) with
  | .error e => .error e
  | .ok (_, .program name) => .ok (.program name)
  | .ok (_, .file content true) =>
    match interpreterLine? content with
    | some (name, argument) => .ok (.scripted name argument)
    | none => .ok (.plain content)
  | .ok _ => .error (.system .permission)

/-- The directories of a search path. -/
def searchPath (value : Chars) : List Chars :=
  (Bytes.splitOn (Bytes.ascii ':') (toBytes value)).map fun d =>
    if d = [] then ['.'] else ofBytes d

/-- The path of a program that is called by name: the first executable in the search path. -/
def findProgram (d : Disk) (search name : Chars) : Except Failure Chars :=
  if name.contains '/' then .ok name
  else
    let paths := (searchPath search).map fun dir => dir ++ '/' :: name
    match paths.find? fun p => (executable d p).isOk with
    | some p => .ok p
    | none =>
      if paths.any fun p => (executable d p matches .error (.system .permission)) then
        .error (.system .permission)
      else .error (.system .noEntry)

/-- The numbers and names of signals. -/
def signalName? (cs : Chars) : Option String :=
  match String.ofList cs with
  | "0" | "EXIT" => some "EXIT"
  | "1" | "HUP" | "SIGHUP" => some "HUP"
  | "2" | "INT" | "SIGINT" => some "INT"
  | "3" | "QUIT" | "SIGQUIT" => some "QUIT"
  | "6" | "ABRT" | "SIGABRT" => some "ABRT"
  | "9" | "KILL" | "SIGKILL" => some "KILL"
  | "10" | "USR1" | "SIGUSR1" => some "USR1"
  | "11" | "SEGV" | "SIGSEGV" => some "SEGV"
  | "12" | "USR2" | "SIGUSR2" => some "USR2"
  | "13" | "PIPE" | "SIGPIPE" => some "PIPE"
  | "14" | "ALRM" | "SIGALRM" => some "ALRM"
  | "15" | "TERM" | "SIGTERM" => some "TERM"
  | "17" | "CHLD" | "SIGCHLD" => some "CHLD"
  | "18" | "CONT" | "SIGCONT" => some "CONT"
  | _ => none

/-- The signal and the processes that `kill` is asked about. -/
def killArguments : List Chars → Option (String × List Chars)
  | ['-', 's'] :: name :: rest => (signalName? name).map (·, rest)
  | ('-' :: name) :: rest =>
    if name = [] then none
    else if name = ['-'] then some ("TERM", rest)
    else (signalName? name).map (·, rest)
  | rest => some ("TERM", rest)

/-- The commands that keep what they change when they fail, and end the script. -/
def specialBuiltins : List String :=
  [":", ".", "break", "continue", "eval", "exec", "exit", "export", "readonly", "return", "set",
    "shift", "trap", "unset", "times"]

/-- The commands that the shell does itself. -/
def builtins : List String :=
  specialBuiltins ++ ["cd", "pwd", "echo", "printf", "test", "[", "true", "false", "kill", "read",
    "command", "type", "local", "wait", "umask", "getopts", "alias", "hash"]

/-- Runs a utility in a session. -/
def useUtility (u : UtilityCall → UtilityRun) (args : List Chars) : Run Unit := do
  let s ← get
  let r := u ⟨args, s.input, s.disk⟩
  set { s with input := r.input, disk := r.disk, status := r.status }
  for (isError, cs) in r.written do
    let _ ← emit (if isError then 2 else 1) cs

/-- Takes one line of the input: the line without its break, and whether the break was there. -/
def takeLine (bs : Bytes) : Bytes × Bool × Bytes :=
  let line := bs.takeWhile (· != Bytes.newline)
  match bs.drop line.length with
  | _ :: rest => (line, true, rest)
  | [] => (line, false, [])

/-- Divides a line among names: the last one gets the rest. -/
def divideLine : List Chars → Chars → List (Chars × Chars)
  | [], _ => []
  | [name], cs =>
    let front := cs.dropWhile isBlankChar
    [(name, (front.reverse.dropWhile isBlankChar).reverse)]
  | name :: names, cs =>
    let cs := cs.dropWhile isBlankChar
    let field := cs.takeWhile (!isBlankChar ·)
    (name, field) :: divideLine names (cs.drop field.length)

/-- `read`: a line of the input into variables. -/
def readVariables (args : List Chars) : Run Unit := do
  let names := args.filter (·.head? != some '-')
  let s ← get
  let (line, complete, rest) := takeLine s.input
  set { s with input := rest }
  for (name, value) in divideLine names (ofBytes line) do
    modify (·.setVariable name value)
  setStatus (if complete then 0 else 1)

/-- The directory that a path leads to from another, step by step: `..` takes a name away. -/
def Path.follow (start p : Path) : Path :=
  let step (names : List Bytes) (name : Bytes) : List Bytes :=
    if name = Path.up then names.dropLast else names ++ [name]
  let names := p.names.foldl step (if p.isAbsolute then [] else start.names)
  ⟨Bytes.slash :: Bytes.joinWith Bytes.slash names⟩

/-- `cd`: changes the working directory. -/
def changeDirectory (args : List Chars) : Run Unit := do
  let s ← get
  let target := (args.filter (·.head? != some '-')).head?.getD
    ((s.valueOf? "HOME".toList).getD [])
  match s.disk.stat (pathOf target) with
  | .ok (l, .directory) =>
    let logical := Path.follow s.directory (pathOf target)
    set { s with disk := { s.disk with cwd := l }, directory := logical, status := 0 }
  | _ =>
    complain ("cd: can't cd to ".toList ++ target)
    setStatus 2

/-- `pwd`: the working directory. -/
def printDirectory (args : List Chars) : Run Unit := do
  let s ← get
  let path := if args.contains ['-', 'P'] then s.disk.cwdPath else s.directory
  let _ ← emit 1 (ofBytes path.bytes ++ ['\n'])
  setStatus 0

/-- `set`: options and positional parameters. -/
def setOptions : List Chars → Run Unit
  | [] => pure ()
  | ['-', '-'] :: rest => modify fun s => { s with parameters := rest }
  | ('-' :: flags) :: rest => do
    modify fun s =>
      { s with
        strict := s.strict || flags.contains 'e'
        careful := s.careful || flags.contains 'u' }
    setOptions rest
  | ('+' :: flags) :: rest => do
    modify fun s =>
      { s with
        strict := s.strict && !flags.contains 'e'
        careful := s.careful && !flags.contains 'u' }
    setOptions rest
  | rest => modify fun s => { s with parameters := rest }

/-- `export`: marks variables, and sets those that are given a value. -/
def exportVariables (args : List Chars) : Run Unit := do
  for a in args do
    let name := a.takeWhile (· != '=')
    if name.length < a.length then modify (·.setVariable name (a.drop (name.length + 1)))
    modify fun s => { s with exported := name :: s.exported }
  setStatus 0

/-- `local`: makes variables the running function's own, and sets those that are given a value. -/
def setLocals (args : List Chars) : Run Unit := do
  for a in args do
    let name := a.takeWhile (· != '=')
    modify fun s => { s with locals := (name, s.valueOf? name) :: s.locals }
    if name.length < a.length then modify (·.setVariable name (a.drop (name.length + 1)))
  setStatus 0

/-- `test`: the status of conditions. -/
def judge (command : String) (args : List Chars) : Run Unit := do
  let (status, mistake) := testStatus (← get).disk args
  match mistake with
  | some cs => complain (command.toList ++ [':', ' '] ++ cs)
  | none => pure ()
  setStatus status

/-- The number that `exit` and its like are given; the status without one. -/
def statusArgument (command : String) (args : List Chars) : Run Nat := do
  match args with
  | [] => return (← get).status
  | a :: _ =>
    match descriptor? a with
    | some n => return n
    | none => giveUp (command.toList ++ ": Illegal number: ".toList ++ a)

/-- The session inside a child: what stays the parent's own is put back afterwards. -/
def afterChild (before after : Session) : Session :=
  { before with
    disk := { after.disk with cwd := before.disk.cwd }
    input := after.input
    written := after.written
    caught := after.caught }

/-- Runs something in a child session and gives its status. -/
def inChild (body : Run Unit) : Run Nat := do
  let before ← get
  let (r, after) := (body.run).run { before with traps := [] }
  set (afterChild before after)
  match r with
  | .ok _ => return after.status
  | .error (.exit n) => return n
  | .error .killed => throw .killed
  | .error _ => return after.status

/-- The characters at which values are split. -/
def separators : Run (Char → Bool) := do
  let ifs := ((← get).valueOf? "IFS".toList).getD [' ', '\t', '\n']
  return fun c => ifs.contains c

mutual

/-- The pieces that a part of a word expands to. -/
def expandPart : Nat → Part → Run (List Piece)
  | 0, _ => throw (.exit 2)
  | fuel + 1, p =>
    match p with
    | .text cs quoted => return [.chars (mark quoted cs)]
    | .output source quoted => do
      let cs ← outputOf fuel source
      if quoted then return [.chars (mark true cs)]
      else return splitValue (← separators) cs
    | .arithmetic source quoted => do
      let m ← expandMarked fuel source
      let s ← get
      let look (name : Chars) : Option Int :=
        match s.valueOf? name with
        | some v => evaluate? (fun _ => some 0) v 0
        | none => some 0
      match evaluate? look (m.map (·.1)) 0 with
      | some n => return [.chars (mark quoted (Numeral.signed n).toList)]
      | none =>
        let reason := if (evaluate? look (m.map (·.1)) 1).isSome then "division by zero"
          else "expecting primary"
        giveUp ("arithmetic expression: ".toList ++ reason.toList ++ [':', ' ', '"'] ++
          m.map (·.1) ++ ['"'])
    | .value name change word quoted => do
      let s ← get
      let value := s.parameter? name
      let isSet (alsoEmpty : Bool) : Bool :=
        match value with
        | none => false
        | some v => !(alsoEmpty && v.isEmpty)
      let plain (cs : Chars) : Run (List Piece) := do
        if quoted then return [.chars (mark true cs)] else return splitValue (← separators) cs
      let all : Bool := name == ['@'] || (name == ['*'] && !quoted)
      let found : Run (List Piece) := do
        if all then
          if quoted then
            return (s.parameters.map fun a => [Piece.chars (mark true a)]).intersperse
              [Piece.divide] |>.flatten
          else
            let sep ← separators
            return (s.parameters.map (splitValue sep)).intersperse [Piece.divide] |>.flatten
        else
          match value with
          | some v => plain v
          | none =>
            if s.careful then giveUp (name ++ ": parameter not set".toList) else plain []
      match change with
      | .none => found
      | .length => plain (Nat.toDigits 10 (value.getD []).length)
      | .trim atEnd longest => do
        let pattern ← expandMarked fuel word
        plain (trimPattern (glob pattern) atEnd longest (value.getD []))
      | .default alsoEmpty => if isSet alsoEmpty then found else expandPieces fuel word
      | .alternative alsoEmpty => if isSet alsoEmpty then expandPieces fuel word else return []
      | .assign alsoEmpty =>
        if isSet alsoEmpty then found
        else do
          let m ← expandMarked fuel word
          modify (·.setVariable name (m.map (·.1)))
          plain (m.map (·.1))
      | .demand alsoEmpty =>
        if isSet alsoEmpty then found
        else do
          let m ← expandMarked fuel word
          let text := m.map (·.1)
          giveUp (name ++ [':', ' '] ++
            (if text ≠ [] then text
             else if alsoEmpty then "parameter not set or null".toList
             else "parameter not set".toList))

/-- The pieces that a word expands to. -/
def expandPieces : Nat → Word → Run (List Piece)
  | 0, _ => throw (.exit 2)
  | fuel + 1, w => do
    let home := ((← get).valueOf? "HOME".toList).getD []
    let w : Word :=
      match w with
      | .text ('~' :: cs) false :: rest =>
        if cs = [] ∨ cs.head? = some '/' then .text home true :: .text cs false :: rest else w
      | w => w
    let ps ← w.mapM (expandPart fuel)
    return ps.flatten

/-- A word as one text, with its quotes marked. -/
def expandMarked : Nat → Word → Run Marked
  | 0, _ => throw (.exit 2)
  | fuel + 1, w => do
    let ps ← expandPieces fuel w
    return ps.flatMap fun
      | .chars m => m
      | .divide => [(' ', false)]

/-- The texts that a word expands to. -/
def expandWord : Nat → Word → Run (List Chars)
  | 0, _ => throw (.exit 2)
  | fuel + 1, w => do
    let ps ← expandPieces fuel w
    let d := (← get).disk
    return (fieldsOf ps).flatMap (fieldTexts d)

/-- What a script writes, without line breaks at the end. -/
def outputOf : Nat → Chars → Run Chars
  | 0, _ => throw (.exit 2)
  | fuel + 1, source => do
    let held := (← get).caught
    modify fun s => { s with caught := [] }
    let line := (← get).line
    let status ← inChild (do
      setTarget 1 (some .pipe)
      runSource fuel ⟨source, line⟩)
    let text := (← get).caught.reverse.flatten
    modify fun s => { s with caught := held, status := status, substituted := true }
    return dropLineEnds text

/-- Applies redirections in order; the answer tells whether all went well. -/
def redirect : Nat → List Redirection → Run Bool
  | 0, _ => throw (.exit 2)
  | _ + 1, [] => return true
  | fuel + 1, r :: rs => do
    let text (w : Word) : Run Chars := do return (← expandMarked fuel w).map (·.1)
    let ok ← match r with
      | .input fd w => do openInput fd (← text w)
      | .output fd w append => do openOutput fd (← text w) append
      | .duplicate fd w => do duplicate fd (← text w)
      | .document fd w => do
        let body ← text w
        if fd = 0 then modify fun s => { s with input := toBytes body }
        pure true
    if ok then redirect fuel rs else return false

/-- Runs something with redirections that end with it. -/
def redirected : Nat → List Redirection → Run Unit → Run Unit
  | 0, _, _ => throw (.exit 2)
  | fuel + 1, rs, body => do
    let before ← get
    let readsElsewhere := rs.any fun
      | .input 0 _ | .document 0 _ => true
      | _ => false
    let restore : Run Unit :=
      modify fun s =>
        { s with
          targets := before.targets
          input := if readsElsewhere then before.input else s.input }
    if ← redirect fuel rs then
      tryCatch body fun flow => do
        restore
        throw flow
      restore
    else
      restore
      setStatus 2

/-- Runs the commands of a text, line by line. -/
def runSource : Nat → Source → Run Unit
  | 0, _ => throw (.exit 2)
  | fuel + 1, source => do
    match nextLine source with
    | .error e =>
      modify fun s => { s with line := e.line }
      giveUp e.mistake.text
    | .ok none => pure ()
    | .ok (some (script, rest)) =>
      run fuel false script
      runSource fuel rest

/-- Runs a script; `tested` when its status is asked for, so that failing does not end a strict
session. -/
def run : Nat → Bool → Script → Run Unit
  | 0, _, _ => throw (.exit 2)
  | fuel + 1, tested, script =>
    match script with
    | .nothing => setStatus 0
    | .simple line as ws rs => do
      modify fun s => { s with line }
      runSimple fuel as ws rs
      let s ← get
      if s.strict && !tested && s.status != 0 then throw (.exit s.status)
    | .sequence a b => do
      run fuel tested a
      run fuel tested b
    | .background a => do
      let _ ← inChild (do
        modify fun s => { s with input := [] }
        run fuel tested a)
      setStatus 0
    | .both a b => do
      run fuel true a
      if (← get).status = 0 then run fuel tested b
    | .either a b => do
      run fuel true a
      if (← get).status ≠ 0 then run fuel tested b
    | .pipeline cs negated => do
      runPipe fuel (tested || negated) cs
      if negated then modify fun s => { s with status := if s.status = 0 then 1 else 0 }
    | .group a rs => redirected fuel rs (run fuel tested a)
    | .subshell a rs =>
      redirected fuel rs (do
        let status ← inChild (run fuel tested a)
        setStatus status
        if (← get).strict && !tested && status != 0 then throw (.exit status))
    | .choice c yes no rs =>
      redirected fuel rs (do
        run fuel true c
        if (← get).status = 0 then run fuel tested yes else run fuel tested no)
    | .loop expected c b rs => redirected fuel rs (runLoop fuel tested expected c b)
    | .each name words b rs =>
      redirected fuel rs (do
        let values ← match words with
          | none => pure (← get).parameters
          | some ws => do pure (← ws.mapM (expandWord fuel)).flatten
        setStatus 0
        runEach fuel tested name b values)
    | .cases w branches rs =>
      redirected fuel rs (do
        let subject := (← expandMarked fuel w).map (·.1)
        setStatus 0
        runCases fuel tested subject branches)
    | .function name b => do
      modify fun s =>
        { s with functions := (name, b) :: s.functions.filter (·.1 != name), status := 0 }

/-- Runs a loop. -/
def runLoop : Nat → Bool → Bool → Script → Script → Run Unit
  | 0, _, _, _, _ => throw (.exit 2)
  | fuel + 1, tested, expected, c, b => do
    run fuel true c
    if ((← get).status == 0) == expected then
      let goOn ← loopBody fuel tested b
      if goOn then runLoop fuel tested expected c b
    else setStatus 0

/-- Runs the body of a loop once; the answer tells whether the loop goes on. -/
def loopBody : Nat → Bool → Script → Run Bool
  | 0, _, _ => throw (.exit 2)
  | fuel + 1, tested, b =>
    tryCatch (do run fuel tested b; return true) fun
      | .leave n => if n ≤ 1 then return false else throw (.leave (n - 1))
      | .again n => if n ≤ 1 then return true else throw (.again (n - 1))
      | flow => throw flow

/-- Runs a body for each value. -/
def runEach : Nat → Bool → Chars → Script → List Chars → Run Unit
  | 0, _, _, _, _ => throw (.exit 2)
  | _ + 1, _, _, _, [] => pure ()
  | fuel + 1, tested, name, b, v :: vs => do
    modify (·.setVariable name v)
    let goOn ← loopBody fuel tested b
    if goOn then runEach fuel tested name b vs

/-- Runs the first branch with a pattern that matches. -/
def runCases : Nat → Bool → Chars → List (List Word × Script) → Run Unit
  | 0, _, _, _ => throw (.exit 2)
  | _ + 1, _, _, [] => pure ()
  | fuel + 1, tested, subject, (patterns, b) :: rest => do
    let ms ← patterns.mapM (expandMarked fuel)
    if ms.any fun m => globMatches (glob m) subject then run fuel tested b
    else runCases fuel tested subject rest

/-- Runs the commands of a pipeline. -/
def runPipe : Nat → Bool → List Script → Run Unit
  | 0, _, _ => throw (.exit 2)
  | _ + 1, _, [] => pure ()
  | fuel + 1, tested, [c] => do
    let status ← inChild (run fuel tested c)
    setStatus status
    if (← get).strict && !tested && status != 0 then throw (.exit status)
  | fuel + 1, tested, c :: cs => do
    let held := (← get).caught
    modify fun s => { s with caught := [] }
    let _ ← inChild (do
      setTarget 1 (some .pipe)
      run fuel true c)
    let s ← get
    set { s with caught := held, input := toBytes s.caught.reverse.flatten }
    let input := s.input
    runPipe fuel tested cs
    modify fun s => { s with input }

/-- Runs a simple command. -/
def runSimple : Nat → List (Chars × Word) → List Word → List Redirection → Run Unit
  | 0, _, _, _ => throw (.exit 2)
  | fuel + 1, as, ws, rs => do
    modify fun s => { s with substituted := false }
    let fields ← do pure (← ws.mapM (expandWord fuel)).flatten
    let values ← as.mapM fun (name, w) => do
      return (name, (← expandMarked fuel w).map (·.1))
    match fields with
    | [] =>
      for (name, value) in values do
        modify (·.setVariable name value)
      let s ← get
      redirected fuel rs (setStatus (if s.substituted then s.status else 0))
    | command :: args =>
      let name := String.ofList command
      if name = "exec" ∧ args = [] then
        let ok ← redirect fuel rs
        if ok then setStatus 0 else throw (.exit 2)
      else if specialBuiltins.contains name then
        for (n, v) in values do
          modify (·.setVariable n v)
        redirected fuel rs (call fuel command args)
      else
        let s ← get
        for (n, v) in values do
          modify fun s => { s.setVariable n v with exported := n :: s.exported }
        redirected fuel rs (call fuel command args)
        if !values.isEmpty then
          modify fun t => { t with vars := s.vars, exported := s.exported }

/-- Calls a function, a command of the shell's own, or a program. -/
def call : Nat → Chars → List Chars → Run Unit
  | 0, _, _ => throw (.exit 2)
  | fuel + 1, command, args => do
    match (← get).functions.lookup command with
    | some b =>
      let before ← get
      modify fun s => { s with parameters := args, locals := [] }
      tryCatch (run fuel false b) fun
        | .ret => pure ()
        | flow => do
          modify (·.leaveFunction before)
          throw flow
      modify (·.leaveFunction before)
    | none =>
      let name := String.ofList command
      if builtins.contains name then builtin fuel name args
      else
        let status ← inChild (startProgram fuel command args)
        setStatus status

/-- Does a command of the shell's own. -/
def builtin : Nat → String → List Chars → Run Unit
  | 0, _, _ => throw (.exit 2)
  | fuel + 1, name, args =>
    match name with
    | ":" | "true" | "wait" | "umask" | "times" | "alias" | "hash" | "readonly" => setStatus 0
    | "false" => setStatus 1
    | "echo" => do
      if ← emit 1 (echoText args) then setStatus 0
      else
        complain "echo: echo: I/O error".toList
        setStatus 1
    | "printf" => do
      match args with
      | [] =>
        complain "printf: usage: printf format [arg ...]".toList
        setStatus 2
      | format :: args =>
        if ← emit 1 (printfText format args) then setStatus 0
        else
          complain "printf: printf: I/O error".toList
          setStatus 1
    | "test" => judge name args
    | "[" => do
      if args.getLast? = some [']'] then judge name args.dropLast
      else
        complain "[: missing ]".toList
        setStatus 2
    | "cd" => changeDirectory args
    | "pwd" => printDirectory args
    | "read" => readVariables args
    | "export" => exportVariables args
    | "local" => setLocals args
    | "set" => do
      setOptions args
      setStatus 0
    | "unset" => do
      for a in args do
        modify (·.unset a)
      setStatus 0
    | "shift" => do
      let n := match args with
        | [] => 1
        | a :: _ => natOf a
      let s ← get
      if s.parameters.length < n then giveUp "shift: can't shift that many".toList
      else
        set { s with parameters := s.parameters.drop n, status := 0 }
    | "exit" => do
      let n ← statusArgument "exit" args
      throw (.exit (n % 256))
    | "return" => do
      let n ← statusArgument "return" args
      setStatus (n % 256)
      throw .ret
    | "break" => throw (.leave (args.head?.elim 1 natOf))
    | "continue" => throw (.again (args.head?.elim 1 natOf))
    | "eval" => do
      let line := (← get).line
      runSource fuel ⟨joinBlank args, line⟩
    | "." => do
      match args with
      | [] => setStatus 2
      | file :: _ =>
        match (← get).disk.read (pathOf file) with
        | .ok content => runSource fuel ⟨ofBytes content, 1⟩
        | .error e =>
          giveUp (".: cannot open ".toList ++ file ++ [':', ' '] ++ openError e false)
    | "exec" => do
      match args with
      | [] => setStatus 0
      | program :: args =>
        startProgram fuel program args
        throw (.exit (← get).status)
    | "trap" => do
      match args with
      | action :: signals =>
        for signal in signals do
          match signalName? signal with
          | some n =>
            modify fun s =>
              let others := s.traps.filter (·.1 != n.toList)
              { s with traps := if action = ['-'] then others else (n.toList, action) :: others }
          | none => pure ()
      | [] => pure ()
      setStatus 0
    | "kill" => do
      match killArguments args with
      | none =>
        complain "kill: Illegal option".toList
        setStatus 2
      | some (signal, processes) =>
        if !processes.contains processNumber then
          complain "kill: No such process".toList
          setStatus 1
        else if signal = "EXIT" ∨ signal = "CHLD" ∨ signal = "CONT" then setStatus 0
        else
          match (← get).traps.lookup signal.toList with
          | some action =>
            if signal = "KILL" then throw .killed
            else
              let line := (← get).line
              setStatus 0
              runSource fuel ⟨action, line⟩
          | none => throw .killed
    | "command" => do
      match args with
      | ['-', 'v'] :: n :: _ =>
        let s ← get
        if builtins.contains (String.ofList n) ∨ (s.functions.lookup n).isSome then
          let _ ← emit 1 (n ++ ['\n'])
          setStatus 0
        else
          match findProgram s.disk ((s.valueOf? "PATH".toList).getD []) n with
          | .ok p =>
            let _ ← emit 1 (p ++ ['\n'])
            setStatus 0
          | .error _ => setStatus 127
      | n :: rest => do
        if builtins.contains (String.ofList n) then builtin fuel (String.ofList n) rest
        else
          let status ← inChild (startProgram fuel n rest)
          setStatus status
      | [] => setStatus 0
    | "type" => do
      setStatus 0
      for a in args do
        let s ← get
        if (s.functions.lookup a).isSome then
          let _ ← emit 1 (a ++ " is a shell function\n".toList)
        else if specialBuiltins.contains (String.ofList a) then
          let _ ← emit 1 (a ++ " is a special shell builtin\n".toList)
        else if builtins.contains (String.ofList a) then
          let _ ← emit 1 (a ++ " is a shell builtin\n".toList)
        else
          match findProgram s.disk ((s.valueOf? "PATH".toList).getD []) a with
          | .ok p =>
            let _ ← emit 1 (a ++ " is ".toList ++ p ++ ['\n'])
          | .error _ =>
            let _ ← emit 1 (a ++ ": not found\n".toList)
            setStatus 127
    | _ => setStatus 0

/-- Runs a program in place of the session, which has to be a child. -/
def startProgram : Nat → Chars → List Chars → Run Unit
  | 0, _, _ => throw (.exit 2)
  | fuel + 1, command, args => do
    let s ← get
    let found := findProgram s.disk ((s.valueOf? "PATH".toList).getD []) command
    match found.bind fun p => (executable s.disk p).map fun e => (p, e) with
    | .ok (path, e) => runExecutable fuel command path e args
    | .error e =>
      match e with
      | .system .noEntry | .system .notDirectory =>
        complain (command ++ ": not found".toList)
        throw (.exit 127)
      | e =>
        complain (command ++ [':', ' '] ++ failureText e)
        throw (.exit 126)

/-- Runs what an executable file is; `command` is what it was called by. -/
def runExecutable : Nat → Chars → Chars → Executable → List Chars → Run Unit
  | 0, _, _, _, _ => throw (.exit 2)
  | fuel + 1, command, path, e, args => do
    match e with
    | .plain content => runScript fuel command args content
    | .scripted interpreter argument =>
      match executable (← get).disk interpreter with
      | .ok inner =>
        runExecutable fuel interpreter interpreter inner (argument.toList ++ path :: args)
      | .error _ =>
        complain (command ++ ": not found".toList)
        throw (.exit 127)
    | .program name =>
      let name := String.ofList (ofBytes name)
      if name = "sh" then runShell fuel command args
      else
        match utility? name with
        | some u => useUtility u args
        | none => throw (.exit 127)

/-- Runs a shell with arguments: a command text after `-c`, or else a file. -/
def runShell : Nat → Chars → List Chars → Run Unit
  | 0, _, _ => throw (.exit 2)
  | fuel + 1, command, args => do
    match args with
    | ['-', 'c'] :: text :: rest =>
      runScript fuel (rest.headD command) rest.tail (toBytes text)
    | ('-' :: flag :: flags) :: rest => do
      setOptions [('-' :: flag :: flags)]
      runShell fuel command rest
    | file :: rest =>
      match (← get).disk.read (pathOf file) with
      | .ok content => runScript fuel file rest content
      | .error e =>
        modify fun s => { s with name := command, line := 0 }
        complain ("cannot open ".toList ++ file ++ [':', ' '] ++ openError e false)
        throw (.exit 2)
    | [] => do
      let content := (← get).input
      modify fun s => { s with input := [] }
      runScript fuel command [] content

/-- Runs a script as a process of its own: only exported variables reach it. -/
def runScript : Nat → Chars → List Chars → Bytes → Run Unit
  | 0, _, _, _ => throw (.exit 2)
  | fuel + 1, name, args, content => do
    modify fun s =>
      { s with
        name
        parameters := args
        vars := s.vars.filter fun (n, _) => s.exported.contains n
        functions := []
        directory := s.disk.cwdPath
        line := 1
        status := 0
        traps := [] }
    let finish : Run Unit := do
      match (← get).traps.lookup "EXIT".toList with
      | some action => do
        let status := (← get).status
        modify fun s => { s with traps := [] }
        runSource fuel ⟨action, 1⟩
        setStatus status
      | none => pure ()
    tryCatch (runSource fuel ⟨ofBytes content, 1⟩) fun
      | .exit n => do
        setStatus n
        finish
        throw (.exit n)
      | .killed => throw .killed
      | _ => pure ()
    finish
    let n := (← get).status
    throw (.exit n)

end

end Relay.Shell

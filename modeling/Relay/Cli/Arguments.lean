import Relay.Text.Numeral

/-!
# Command-line arguments

Options and operands, read from left to right.  A long option is `--name value` or `--name=value`;
one-letter options can stand together behind one hyphen, and the last of them may take a value,
from the same argument or the next.  A value from the next argument must not look like an option.
After `--` there are only operands.  The first mistake ends the reading, and so does an option that
asks for help or for the version.
-/

namespace Relay.Cli

/-- Why a program stops at its arguments. -/
inductive Stop where
  | usage
  /-- Help is asked for, on a command or on the whole program. -/
  | help (command : Option String)
  | version
  deriving DecidableEq, Repr

/-- What an option takes. -/
inductive Takes where
  /-- Nothing; how often it stands there may count. -/
  | nothing
  | text
  /-- A path, which is not empty. -/
  | path
  /-- A number in 64 bits. -/
  | word
  /-- Nothing; the reading stops. -/
  | stop (s : Stop)
  deriving DecidableEq, Repr

/-- An option that a program knows. -/
structure OptionSpec where
  name : String
  letter : Option Char
  takes : Takes
  /-- It may stand there more than once. -/
  many : Bool
  /-- What it is for. -/
  about : String
  deriving DecidableEq, Repr

/-- What was read: the options with their values, and the operands, each in order. -/
structure Arguments where
  options : List (String × String)
  operands : List String
  deriving DecidableEq, Repr

namespace Arguments

/-- Nothing was read. -/
def empty : Arguments := ⟨[], []⟩

/-- The values of an option, in order. -/
def values (a : Arguments) (name : String) : List String :=
  (a.options.filter (·.1 == name)).map (·.2)

/-- The value of an option. -/
def value? (a : Arguments) (name : String) : Option String := a.options.lookup name

/-- The option stands there. -/
def has (a : Arguments) (name : String) : Bool := (a.value? name).isSome

end Arguments

/-- A value is one that the option takes. -/
def Takes.accepts (t : Takes) (value : String) : Bool :=
  match t with
  | .path => value != ""
  | .word => (Numeral.word? value).isSome
  | _ => true

/-- The arguments with one more option. -/
def addOption (spec : OptionSpec) (value : String) (a : Arguments) : Except Stop Arguments :=
  if !spec.many && a.has spec.name then .error .usage
  else if !spec.takes.accepts value then .error .usage
  else .ok { a with options := a.options ++ [(spec.name, value)] }

/-- The argument looks like an option. -/
def looksLikeOption (arg : String) : Bool :=
  match arg.toList with
  | '-' :: _ :: _ => true
  | _ => false

/-- What stands before and after the first `=`. -/
def splitEquals (cs : List Char) : String × Option String :=
  let name := cs.takeWhile (· != '=')
  (String.ofList name,
    if name.length < cs.length then some (String.ofList (cs.drop (name.length + 1))) else none)

/-- Reads letters behind one hyphen.  The answer names an option that takes its value from the next
argument. -/
def addLetters (specs : List OptionSpec) :
    List Char → Arguments → Except Stop (Arguments × Option OptionSpec)
  | [], a => .ok (a, none)
  | c :: cs, a =>
    match specs.find? (·.letter == some c) with
    | none => .error .usage
    | some spec =>
      match spec.takes with
      | .stop s => .error s
      | .nothing => do
        let a ← addOption spec "" a
        addLetters specs cs a
      | _ =>
        match cs with
        | [] => .ok (a, some spec)
        | '=' :: value => do return (← addOption spec (String.ofList value) a, none)
        | value => do return (← addOption spec (String.ofList value) a, none)

/-- Reads a long option without its hyphens.  The answer names an option that takes its value from
the next argument. -/
def addLong (specs : List OptionSpec) (cs : List Char) (a : Arguments) :
    Except Stop (Arguments × Option OptionSpec) :=
  let (name, value) := splitEquals cs
  match specs.find? (·.name == name) with
  | none => .error .usage
  | some spec =>
    match spec.takes, value with
    | .stop s, none => .error s
    | .stop _, some _ => .error .usage
    | .nothing, none => do return (← addOption spec "" a, none)
    | .nothing, some _ => .error .usage
    | _, some value => do return (← addOption spec value a, none)
    | _, none => .ok (a, some spec)

/-- Reads an option. -/
def addArgument (specs : List OptionSpec) (arg : String) (a : Arguments) :
    Except Stop (Arguments × Option OptionSpec) :=
  match arg.toList with
  | '-' :: '-' :: name => addLong specs name a
  | _ :: letters => addLetters specs letters a
  | [] => .error .usage

/-- Reads arguments, with at most `room` operands; `wanting` is an option that waits for its value.
With `early` the first operand ends the reading.  The answer holds what was not read. -/
def readFrom (specs : List OptionSpec) (room : Nat) (early : Bool) :
    Option OptionSpec → Arguments → List String → Except Stop (Arguments × List String)
  | some _, _, [] => .error .usage
  | none, a, [] => .ok (a, [])
  | some spec, a, arg :: args =>
    if looksLikeOption arg then .error .usage
    else do
      let a ← addOption spec arg a
      readFrom specs room early none a args
  | none, a, arg :: args =>
    if arg = "--" then
      if room < a.operands.length + args.length then .error .usage
      else .ok ({ a with operands := a.operands ++ args }, [])
    else if looksLikeOption arg then do
      let (a, wanting) ← addArgument specs arg a
      readFrom specs room early wanting a args
    else if early then .ok (a, arg :: args)
    else if room < a.operands.length + 1 then .error .usage
    else readFrom specs room early none { a with operands := a.operands ++ [arg] } args

/-- Reads all arguments. -/
def readAll (specs : List OptionSpec) (room : Nat) (args : List String) :
    Except Stop Arguments := do
  return (← readFrom specs room false none .empty args).1

/-- Reads the options in front of the first operand. -/
def readFront (specs : List OptionSpec) (args : List String) :
    Except Stop (Arguments × List String) :=
  readFrom specs 0 true none .empty args

end Relay.Cli

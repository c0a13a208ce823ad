import Relay.Controller

/-!
# What is typed in a session

A line is a command when its first word is one, where only the space divides words; the blanks
around the line do not count.  Every other line is a line of the program, as it is.
-/

namespace Relay.Session

/-- What a line means. -/
inductive Input where
  | run (trigger : Trigger)
  | clear
  | reset
  | key (value : String)
  | sample (name : String)
  | samples
  | print
  | quit
  | line (text : String)
  deriving DecidableEq, Repr

/-- The characters before the first space, and those after it. -/
def splitWord (cs : List Char) : List Char × List Char :=
  let word := cs.takeWhile (· != ' ')
  (word, cs.drop (word.length + 1))

/-- What a line means. -/
def Input.parse (line : String) : Input :=
  let (word, rest) := splitWord (Text.trimChars line.toList)
  match String.ofList word with
  | ":run" => .run .button
  | ":r" => .run .accelerator
  | ":clear" => .clear
  | ":reset" => .reset
  | ":key" => .key (String.ofList (Text.trimChars rest))
  | ":sample" => .sample (String.ofList rest)
  | ":samples" => .samples
  | ":show" => .print
  | ":quit" | ":q" => .quit
  | _ => .line line

/-- The line is a command. -/
def Input.isCommand : Input → Bool
  | line _ => false
  | _ => true

end Relay.Session

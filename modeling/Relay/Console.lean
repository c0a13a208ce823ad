import Relay.Controller
import Relay.Tool.Capture

/-!
# The console

A console shows what a controller does to its surface: output goes to one stream and the status to
the other.  It cannot take back what it wrote, so replacing the output means writing the new one.
-/

namespace Relay

/-- Text for a stream. -/
structure Line where
  stream : Stream
  text : String
  deriving DecidableEq, Repr

/-- Text for the output. -/
def Line.out (text : String) : Line := ⟨.out, text⟩

/-- Text for the other stream. -/
def Line.err (text : String) : Line := ⟨.err, text⟩

/-- How a console shows things. -/
inductive ConsoleStyle where
  /-- The status in parentheses, and every output ends its line. -/
  | playground
  /-- The status after a tag, and the output as it is. -/
  | editor
  deriving DecidableEq, Repr

namespace ConsoleStyle

/-- The tag in front of a status. -/
def tag : StatusKind → String
  | .info => ""
  | .ok => "[ok] "
  | .error => "[error] "

/-- A status that says something. -/
def statusText (style : ConsoleStyle) (s : Status) : String :=
  match style with
  | playground => "(" ++ s.text ++ ")\n"
  | editor => tag s.kind ++ s.text ++ "\n"

/-- The text that shows an output. -/
def outputText (style : ConsoleStyle) (text : String) : String :=
  if style = playground ∧ text ≠ "" ∧ ¬ Text.endsLine text then text ++ "\n" else text

/-- What is written for an event. -/
def shown (style : ConsoleStyle) : Event → List Line
  | .status s => if s.isEmpty then [] else [.err (style.statusText s)]
  | .setOutput text | .appendOutput text => [.out (style.outputText text)]
  | .enableTrigger _ => []
  | .focusKey => [.err "> :key <value>\n"]

/-- What is written for events in their order. -/
def shownAll (style : ConsoleStyle) (events : List Event) : List Line := events.flatMap style.shown

end ConsoleStyle

/-- The surface events among effects. -/
def Effect.events (effects : List Effect) : List Event :=
  effects.filterMap fun
    | .surface e => some e
    | .invoke _ => none

end Relay

import Relay.Cli.Arguments
import Relay.Text.Blank

/-!
# Help pages

A page says what a program or one of its commands does, how it is called, and what stands in the
call: commands, operands and options, each in two columns.  The columns of a section are aligned,
and the options come from the list that the reader of arguments goes by.
-/

namespace Relay.Cli

/-- A help page. -/
structure HelpPage where
  about : String
  usage : String
  commands : List (String × String)
  operands : List (String × String)
  options : List OptionSpec
  deriving Repr

/-- The name of an option's value. -/
def OptionSpec.valueName (o : OptionSpec) : String :=
  o.name.map fun c => if c = '-' then '_' else c.toUpper

/-- How the option is written. -/
def OptionSpec.shape (o : OptionSpec) : String :=
  let letter := match o.letter with
    | some c => "-" ++ String.singleton c ++ ", "
    | none => "    "
  let value := match o.takes with
    | .nothing => if o.many then "..." else ""
    | .stop _ => ""
    | .text | .path | .word => " <" ++ o.valueName ++ ">"
  letter ++ "--" ++ o.name ++ value

/-- Rows in two columns, the second of which starts behind the longest entry of the first. -/
def columns (rows : List (String × String)) : List String :=
  let width := rows.foldl (fun w row => max w row.1.length) 0
  rows.map fun (left, right) =>
    "  " ++ left ++ String.ofList (List.replicate (width - left.length) ' ') ++ "  " ++ right

/-- A section of a page; one without rows is left out. -/
def helpSection (title : String) (rows : List (String × String)) : List String :=
  if rows.isEmpty then [] else "" :: (title ++ ":") :: columns rows

/-- The text of a page. -/
def HelpPage.text (p : HelpPage) : String :=
  Text.ofLines
    ([p.about, "", "Usage: " ++ p.usage] ++ helpSection "Commands" p.commands ++
      helpSection "Arguments" p.operands ++
      helpSection "Options" (p.options.map fun o => (o.shape, o.about)))

/-! ## Options of every program -/

/-- The option for the settings document. -/
def configOption : OptionSpec :=
  ⟨"config", none, .path, false, "Settings file (default: ./jatti.toml when present)"⟩

/-- The option for more messages to developers. -/
def verboseOption : OptionSpec :=
  ⟨"verbose", some 'v', .nothing, true, "More log output (-v info, -vv debug)"⟩

/-- The option for the help page of a command, or of the whole program. -/
def helpOption (command : Option String) : OptionSpec :=
  ⟨"help", some 'h', .stop (.help command), false, "Print help"⟩

end Relay.Cli

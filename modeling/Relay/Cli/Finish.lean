import Relay.Cli.Help
import Relay.Console
import Relay.Credential.Store
import Relay.Settings.Load

/-!
# How a program ends

A program writes to two streams, leaves the disk as it is then, and ends with a code.  One that
gives up reports its error in a form for developers: the name of the cause and what belongs to it.
-/

namespace Relay.Cli

open Files (Disk Failure)

/-- What a program did. -/
structure Finish where
  written : List (Stream × Bytes)
  code : Int
  disk : Disk
  /-- The program did not understand its arguments. -/
  refused : Bool
  deriving Repr

/-- Lines as octets. -/
def encoded (lines : List Line) : List (Stream × Bytes) :=
  lines.map fun l => (l.stream, Utf8.encode l.text)

/-- A program that wrote lines and ended with a code. -/
def finished (disk : Disk) (lines : List Line) (code : Int) : Finish :=
  ⟨encoded lines, code, disk, false⟩

/-- The characters that a quoted text in a report shows by number. -/
def isHidden (c : Char) : Bool :=
  let n := c.toNat
  n < 0x20 || (0x7F ≤ n && n ≤ 0xA0) || n == 0xAD || (0x300 ≤ n && n ≤ 0x36F) || n == 0x1680 ||
    (0x2000 ≤ n && n ≤ 0x200F) || (0x2028 ≤ n && n ≤ 0x202F) || (0x205F ≤ n && n ≤ 0x206F) ||
    n == 0x3000 || (0xE000 ≤ n && n ≤ 0xF8FF) || n == 0xFEFF || (0xFE00 ≤ n && n ≤ 0xFE0F) ||
    (0xFFF0 ≤ n && n ≤ 0xFFFB) || 0xE0000 ≤ n

/-- A character of a quoted text in a report. -/
def quotedChar (c : Char) : List Char :=
  if c = '"' ∨ c = '\\' then ['\\', c]
  else if c = '\n' then ['\\', 'n']
  else if c = '\r' then ['\\', 'r']
  else if c = '\t' then ['\\', 't']
  else if c.toNat = 0 then ['\\', '0']
  else if isHidden c then "\\u\x7b".toList ++ Nat.toDigits 16 c.toNat ++ ['}']
  else [c]

/-- A text in a report. -/
def quoted (s : String) : String :=
  String.ofList ('"' :: s.toList.flatMap quotedChar ++ ['"'])

/-- An error of the settings in a report. -/
def settingsReport : SettingsError → String
  | .missing path => "Missing(" ++ quoted path.display ++ ")"
  | .io failure => "Io(" ++ failure.report ++ ")"
  | .badDocument => "TomlParse(<toml>)"

/-- An error of a store in a report. -/
def storeReport : StoreError → String
  | .io failure => "Io(" ++ failure.report ++ ")"
  | .json fault => "Json(" ++ quoted fault.message ++ ")"

/-- A program that gives up. -/
def failed (disk : Disk) (report : String) : Finish :=
  finished disk [.err ("Error: " ++ report ++ "\n")] 1

/-- The texts that a program has for questions about itself. -/
structure SelfDescription where
  help : Option String → HelpPage
  version : String

/-- A program that stops at its arguments. -/
def stopped (disk : Disk) (texts : SelfDescription) : Stop → Finish
  | .usage => { finished disk [.err (texts.help none).text] 2 with refused := true }
  | .help command => finished disk [.out (texts.help command).text] 0
  | .version => finished disk [.out texts.version] 0

end Relay.Cli

import Relay.Text.Numeral

/-!
# Why a file operation fails

A failure is a cause: an error of the operating system, or one found before the system is asked.
`Failure.message` is its text in a message, `Failure.report` its text where a whole program gives
up on it.
-/

namespace Relay.Files

/-- The errors of the operating system that can arise here. -/
inductive SystemError where
  | noEntry
  | execFormat
  | permission
  | alreadyExists
  | notDirectory
  | isDirectory
  | nameTooLong
  | tooManyLinks
  deriving DecidableEq, Repr, Inhabited

namespace SystemError

/-- The number of the error. -/
def code : SystemError → Nat
  | noEntry => 2
  | execFormat => 8
  | permission => 13
  | alreadyExists => 17
  | notDirectory => 20
  | isDirectory => 21
  | nameTooLong => 36
  | tooManyLinks => 40

/-- The system's text for the error. -/
def text : SystemError → String
  | noEntry => "No such file or directory"
  | execFormat => "Exec format error"
  | permission => "Permission denied"
  | alreadyExists => "File exists"
  | notDirectory => "Not a directory"
  | isDirectory => "Is a directory"
  | nameTooLong => "File name too long"
  | tooManyLinks => "Too many levels of symbolic links"

/-- The word for the kind of error in a report. -/
def kind : SystemError → String
  | noEntry => "NotFound"
  | execFormat => "Uncategorized"
  | permission => "PermissionDenied"
  | alreadyExists => "AlreadyExists"
  | notDirectory => "NotADirectory"
  | isDirectory => "IsADirectory"
  | nameTooLong => "InvalidFilename"
  | tooManyLinks => "FilesystemLoop"

end SystemError

/-- Why a file operation fails. -/
inductive Failure where
  | system (error : SystemError)
  /-- A text file holds octets that are no text. -/
  | notText
  /-- A path holds the octet zero. -/
  | zeroInPath
  /-- A program or one of its arguments holds the octet zero. -/
  | zeroInArgument
  /-- Anything else, in the words of whoever failed. -/
  | other (text : String)
  deriving DecidableEq, Repr, Inhabited

namespace Failure

/-- The failure in a message. -/
def message : Failure → String
  | system e => e.text ++ " (os error " ++ Numeral.decimal e.code ++ ")"
  | notText => "stream did not contain valid UTF-8"
  | zeroInPath => "file name contained an unexpected NUL byte"
  | zeroInArgument => "nul byte found in provided data"
  | other text => text

/-- A failure found before the system is asked, in a report. -/
def reportPlain (kind text : String) : String :=
  "Error \x7b kind: " ++ kind ++ ", message: \"" ++ text ++ "\" \x7d"

/-- The failure as a program that gives up on it reports it. -/
def report : Failure → String
  | system e =>
    "Os \x7b code: " ++ Numeral.decimal e.code ++ ", kind: " ++ e.kind ++ ", message: \"" ++ e.text
      ++ "\" \x7d"
  | notText => reportPlain "InvalidData" "stream did not contain valid UTF-8"
  | zeroInPath => reportPlain "InvalidInput" "file name contained an unexpected NUL byte"
  | zeroInArgument => reportPlain "InvalidInput" "nul byte found in provided data"
  | other text => "Custom \x7b kind: Other, error: \"" ++ text ++ "\" \x7d"

end Failure

end Relay.Files

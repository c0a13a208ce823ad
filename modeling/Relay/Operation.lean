/-!
# Operations

What a user can ask an executor to do with a program.
-/

namespace Relay

/-- Something to do with a program. -/
inductive Operation where
  | run
  | build
  | format
  deriving DecidableEq, Repr, Inhabited

namespace Operation

/-- The word for the operation, in messages and as the tool's argument. -/
def word : Operation → String
  | run => "run"
  | build => "build"
  | format => "format"

/-- All operations. -/
def all : List Operation := [run, build, format]

/-- The operation of a word. -/
def ofWord? (w : String) : Option Operation := all.find? (·.word == w)

end Operation

end Relay

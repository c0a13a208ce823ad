/-!
# Environment variables

The variables of a process, as names with values; the first of two entries with one name counts.
-/

namespace Relay

/-- Variables by name. -/
abbrev Variables := List (String × String)

namespace Variables

/-- The value of a variable. -/
def get? (vs : Variables) (name : String) : Option String := List.lookup name vs

/-- The variables with one set to a value. -/
def set (vs : Variables) (name value : String) : Variables :=
  (name, value) :: vs.filter (·.1 != name)

/-- The variables with one set to a value, unless it has one already. -/
def setNew (vs : Variables) (name value : String) : Variables :=
  match vs.get? name with
  | some _ => vs
  | none => vs.set name value

end Variables

end Relay

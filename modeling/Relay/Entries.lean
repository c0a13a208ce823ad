/-!
# Tables of texts

A table gives a text to each of some names.  Names keep the place where they first came.
-/

namespace Relay

/-- A table of texts by name. -/
abbrev Entries := List (String × String)

namespace Entries

/-- The text of a name. -/
def get? (name : String) : Entries → Option String
  | [] => none
  | (n, v) :: es => if n = name then some v else get? name es

/-- The table with `name` set to `value`. -/
def set (name value : String) : Entries → Entries
  | [] => [(name, value)]
  | (n, v) :: es => if n = name then (name, value) :: es else (n, v) :: set name value es

/-- The table without a name. -/
def erase (name : String) : Entries → Entries
  | [] => []
  | (n, v) :: es => if n = name then erase name es else (n, v) :: erase name es

@[simp] theorem get?_set_self (name value : String) (es : Entries) :
    get? name (set name value es) = some value := by
  induction es with
  | nil => simp [set, get?]
  | cons e es ih =>
    obtain ⟨n, v⟩ := e
    by_cases h : n = name <;> simp [set, get?, h, ih]

theorem get?_set_of_ne {name other : String} (h : other ≠ name) (value : String) (es : Entries) :
    get? other (set name value es) = get? other es := by
  induction es with
  | nil => simp [set, get?, h.symm]
  | cons e es ih =>
    obtain ⟨n, v⟩ := e
    by_cases hn : n = name
    · subst hn; simp [set, get?, h.symm]
    · simp only [set, if_neg hn, get?, ih]

theorem get?_erase (name other : String) (es : Entries) :
    get? other (erase name es) = if other = name then none else get? other es := by
  induction es with
  | nil => simp [erase, get?]
  | cons e es ih =>
    obtain ⟨n, v⟩ := e
    by_cases hn : n = name
    · subst hn
      by_cases ho : other = n
      · subst ho; simpa [erase] using ih
      · simpa [erase, get?, ho, Ne.symm ho] using ih
    · by_cases ho : n = other
      · subst ho; simp [erase, get?, hn]
      · simp only [erase, if_neg hn, get?, if_neg ho, ih]

end Entries

end Relay

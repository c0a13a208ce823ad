/-!
# Lists by key

Runs, reports and file trees are lists of pairs in which the first pair of a key counts.  These are
the laws of looking up a key when a pair is put in front or the pairs of a key are taken out.
-/

namespace Relay

variable {κ α : Type} [BEq κ] {xs : List (κ × α)}

theorem nodup_filter_ne (h : (xs.map (·.1)).Nodup) (key : κ) :
    ((xs.filter (·.1 != key)).map (·.1)).Nodup :=
  h.sublist (List.filter_sublist.map _)

variable [LawfulBEq κ]

theorem filter_ne_of_not_mem {key : κ} (h : key ∉ xs.map (·.1)) :
    xs.filter (·.1 != key) = xs := by
  refine List.filter_eq_self.mpr ?_
  intro p hp
  have hne : p.1 ≠ key := fun heq => h (heq ▸ List.mem_map_of_mem hp)
  simpa using hne

variable [DecidableEq κ]

theorem lookup_cons_if (key other : κ) (a : α) (xs : List (κ × α)) :
    ((key, a) :: xs).lookup other = if other = key then some a else xs.lookup other := by
  by_cases h : other = key
  · simp [h]
  · rw [List.lookup_cons, beq_eq_false_iff_ne.mpr h, if_neg h]

/-- Where no key occurs twice, every pair is found under its key. -/
theorem lookup_of_mem (h : (xs.map (·.1)).Nodup) {p : κ × α} (hp : p ∈ xs) :
    xs.lookup p.1 = some p.2 := by
  induction xs with
  | nil => cases hp
  | cons q xs ih =>
      obtain ⟨key, a⟩ := q
      obtain ⟨hfirst, hrest⟩ := List.nodup_cons.mp h
      rw [lookup_cons_if]
      rcases List.mem_cons.mp hp with rfl | hp
      · exact if_pos rfl
      · have hne : p.1 ≠ key := fun heq => hfirst (List.mem_map.mpr ⟨p, hp, heq⟩)
        rw [if_neg hne]
        exact ih hrest hp

theorem filter_not_mem_cons (key : κ) (keys : List κ) (xs : List (κ × α)) :
    (xs.filter (·.1 != key)).filter (·.1 ∉ keys) = xs.filter (·.1 ∉ key :: keys) := by
  rw [List.filter_filter]
  refine List.filter_congr fun p _ => ?_
  by_cases hp : p.1 = key <;> simp [hp]

theorem lookup_filter_ne (key other : κ) (xs : List (κ × α)) :
    (xs.filter (·.1 != key)).lookup other = if other = key then none else xs.lookup other := by
  induction xs with
  | nil => simp
  | cons p xs ih =>
      obtain ⟨first, a⟩ := p
      by_cases hfirst : first = key
      · rw [List.filter_cons_of_neg (by simpa using hfirst), ih, lookup_cons_if, hfirst]
        split <;> rfl
      · rw [List.filter_cons_of_pos (by simpa using hfirst), lookup_cons_if, lookup_cons_if, ih]
        by_cases hother : other = first
        · simp [hother, hfirst]
        · simp [hother]

end Relay

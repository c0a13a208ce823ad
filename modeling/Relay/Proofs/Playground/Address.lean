import Mathlib.Data.List.DropRight
import Relay.Locate

/-!
# The address that runs programs

A playground's address may be set with any number of slashes at its end.  `Bare` says what is left
without them, and there is one such text (`bare_iff`), also for an address of slashes only.  The
route is put after it, so two settings name the same address exactly when they differ in slashes at
the end alone, be it that they have slashes inside or end in the route themselves.
-/

namespace Relay

namespace Text

/-- `base` is what is left of `s` without all its `c` at the end. -/
structure Bare (c : Char) (s base : String) : Prop where
  followed : ∃ n, s = base ++ String.ofList (List.replicate n c)
  last : base.toList.getLast? ≠ some c

variable {c : Char} {s base : String}

theorem toList_dropEndChar (c : Char) (s : String) :
    (dropEndChar c s).toList = s.toList.rdropWhile (· == c) := String.toList_ofList

theorem bare_dropEndChar (c : Char) (s : String) : Bare c s (dropEndChar c s) := by
  have hdropped : s.toList.rtakeWhile (· == c) =
      List.replicate (s.toList.rtakeWhile (· == c)).length c := by
    rw [List.eq_replicate_iff]
    refine ⟨rfl, fun d hd => ?_⟩
    simpa using List.mem_rtakeWhile_imp hd
  refine ⟨⟨(s.toList.rtakeWhile (· == c)).length, ?_⟩, ?_⟩
  · apply String.toList_inj.mp
    rw [String.toList_append, String.toList_ofList, toList_dropEndChar, ← hdropped,
      List.rdropWhile_append_rtakeWhile]
  · rw [toList_dropEndChar, List.rdropWhile, List.getLast?_reverse]
    intro hlast
    have hnot := List.head?_dropWhile_not (· == c) s.toList.reverse
    rw [hlast] at hnot
    simp at hnot

theorem rdropWhile_append_replicate {cs : List Char} (h : cs.getLast? ≠ some c) (n : Nat) :
    (cs ++ List.replicate n c).rdropWhile (· == c) = cs := by
  induction n with
  | zero =>
      rw [List.replicate_zero, List.append_nil, List.rdropWhile_eq_self_iff]
      intro hne hc
      rw [List.getLast?_eq_some_getLast hne, beq_iff_eq.mp hc] at h
      exact h rfl
  | succ n ih =>
      rw [List.replicate_succ', ← List.append_assoc, List.rdropWhile_concat_pos _ _ _ (by simp), ih]

/-- There is only one text that is left. -/
theorem bare_iff : Bare c s base ↔ base = dropEndChar c s := by
  constructor
  · rintro ⟨⟨n, rfl⟩, hlast⟩
    apply String.toList_inj.mp
    rw [toList_dropEndChar, String.toList_append, String.toList_ofList,
      rdropWhile_append_replicate hlast]
  · rintro rfl
    exact bare_dropEndChar c s

end Text

/-- Two settings lead to the same address exactly when they are equal without the slashes at their
ends.  For every setting there is one text that it is without them; the address is that text, which
does not end in a slash, followed by the route. -/
theorem runAddress_by_base (endpoint endpoint' : String) :
    (runAddress endpoint = runAddress endpoint' ↔
      ∃ base, Text.Bare '/' endpoint base ∧ Text.Bare '/' endpoint' base) ∧
    ∃ base, Text.Bare '/' endpoint base ∧ (∀ base', Text.Bare '/' endpoint base' → base' = base) ∧
      runAddress endpoint = base ++ "/api/run" := by
  refine ⟨?_, Text.dropEndChar '/' endpoint, Text.bare_dropEndChar '/' endpoint,
    fun base' h => Text.bare_iff.mp h, rfl⟩
  have hbase : runAddress endpoint = runAddress endpoint' ↔
      Text.dropEndChar '/' endpoint = Text.dropEndChar '/' endpoint' :=
    String.append_left_inj runRoute
  rw [hbase]
  constructor
  · intro h
    exact ⟨_, Text.bare_dropEndChar '/' endpoint, h ▸ Text.bare_dropEndChar '/' endpoint'⟩
  · rintro ⟨base, hbare, hbare'⟩
    rw [← Text.bare_iff.mp hbare, ← Text.bare_iff.mp hbare']

/-- An address with slashes inside that ends in the route itself, and one of slashes only. -/
theorem runAddress_by_base_slashes :
    runAddress "http://a//api/run/" = runAddress "http://a//api/run///" ∧
      runAddress "///" = "/api/run" := by
  have hbare : ∀ n, Text.Bare '/' ("http://a//api/run" ++ .ofList (List.replicate n '/'))
      "http://a//api/run" := fun n => ⟨⟨n, rfl⟩, by decide⟩
  obtain ⟨base, -, hunique, haddress⟩ := (runAddress_by_base "///" "").2
  have hempty : "" = base := hunique "" ⟨⟨3, by decide⟩, by decide⟩
  rw [← hempty] at haddress
  exact ⟨(runAddress_by_base _ _).1.mpr ⟨_, hbare 1, hbare 3⟩, haddress⟩

end Relay

import Mathlib.Data.List.Basic
import Mathlib.Data.List.Induction
import Relay.Proofs.Text.Utf8
import Relay.Text.Lowercase

/-!
# What becomes an ASCII character in lower case

The table of lower-case forms is long, but few of its runs lead into ASCII: that of the ASCII capitals,
and the Kelvin sign, which becomes a `k` (`lowerRuns_targets`).  So every other ASCII character is the
form of itself and, if it is a letter, of its capital alone (`eq_of_lowerChar`).

The form of a capital sigma depends on where it stands.  `Lowered` leaves it open, so what is shown of a
text in lower case holds for either rule.
-/

namespace Relay.Text

/-- The run of the ASCII capitals. -/
def asciiCapitals : CaseRun := ⟨0x41, 0x5A, 1, 32⟩

/-- Where the runs of the table lead: the capitals of ASCII to its small letters, one character to
`k`, and all others to characters beyond ASCII. -/
def CaseRun.leadsBeyond (r : CaseRun) : Bool :=
  (r == asciiCapitals) || (r.first == r.last && r.first + r.offset == 0x6B) ||
    (0x80 ≤ r.first + r.offset &&
      (r.last + r.offset < 0xD800 || (0xDFFF < r.first + r.offset && r.last + r.offset < 0x110000)))

theorem lowerRuns_targets : lowerRuns.all CaseRun.leadsBeyond = true := by
  decide

/-- A character that becomes one ASCII character other than `k` is that one, or its capital. -/
theorem eq_of_lowerChar {c d : Char} (h : lowerChar c = [d]) (hascii : d.toNat < 0x80)
    (hk : d.toNat ≠ 0x6B) :
    c = d ∨ (0x41 ≤ c.toNat ∧ c.toNat ≤ 0x5A ∧ d.toNat = c.toNat + 32) := by
  unfold lowerChar at h
  split at h
  · cases h
  split at h
  · next r hfind =>
    have hcovers := List.find?_some hfind
    have hleads := List.all_eq_true.mp lowerRuns_targets r (List.mem_of_find?_eq_some hfind)
    simp only [CaseRun.covers, Bool.and_eq_true, decide_eq_true_eq] at hcovers
    obtain ⟨⟨hfirst, hlast⟩, -⟩ := hcovers
    simp only [CaseRun.leadsBeyond, Bool.or_eq_true, Bool.and_eq_true, beq_iff_eq,
      decide_eq_true_eq] at hleads
    obtain rfl : Char.ofNat (c.toNat + r.offset).toNat = d := List.head_eq_of_cons_eq h
    generalize hn : (c.toNat + r.offset).toNat = n at hascii hk ⊢
    have hvalue : n.isValidChar → (Char.ofNat n).toNat = n := Utf8.val_toNat_ofNat
    rcases hleads with (rfl | ⟨hone, hkelvin⟩) | ⟨hbeyond, hvalid⟩
    · simp only [asciiCapitals] at hfirst hlast hn
      refine .inr ⟨hfirst, hlast, ?_⟩
      rw [hvalue (.inl (by omega))]
      omega
    · rw [hvalue (.inl (by omega))] at hk
      omega
    · rw [hvalue (by unfold Nat.isValidChar; omega)] at hascii
      omega
  · exact .inl (List.head_eq_of_cons_eq h)

theorem lowerChar_cases (c : Char) :
    (∃ d, lowerChar c = [d]) ∨ lowerChar c = ['i', Char.ofNat 0x307] := by
  unfold lowerChar
  split
  · exact .inr rfl
  split
  · exact .inl ⟨_, rfl⟩
  · exact .inl ⟨_, rfl⟩

/-! ## Texts in lower case -/

/-- The forms of a character in lower case: a capital sigma has a second one, for the end of a word. -/
def lowerForms (c : Char) : List (List Char) :=
  if c.toNat = 0x3A3 then [lowerChar c, [Char.ofNat 0x3C2]] else [lowerChar c]

/-- A text and the text in lower case, in whichever form each capital sigma is. -/
inductive Lowered : List Char → List Char → Prop where
  | nil : Lowered [] []
  | snoc {cs ds form : List Char} {c : Char} (rest : Lowered cs ds) (last : form ∈ lowerForms c) :
      Lowered (cs ++ [c]) (ds ++ form)

theorem lowerChar_mem_lowerForms (c : Char) : lowerChar c ∈ lowerForms c := by
  unfold lowerForms
  split <;> simp

theorem lowered_lowerChars (cs : List Char) : Lowered cs (lowerChars cs) := by
  induction cs using List.reverseRecOn with
  | nil => exact .nil
  | append_singleton cs c ih =>
      have happend : lowerChars (cs ++ [c]) = lowerChars cs ++ lowerChar c := by simp [lowerChars]
      rw [happend]
      exact .snoc ih (lowerChar_mem_lowerForms c)

theorem Lowered.eq_nil {ds : List Char} (h : Lowered [] ds) : ds = [] := by
  generalize hcs : ([] : List Char) = cs at h
  cases h with
  | nil => rfl
  | snoc rest last => simp at hcs

theorem Lowered.exists_of_concat {cs ds : List Char} {c : Char} (h : Lowered (cs ++ [c]) ds) :
    ∃ ds' form, ds = ds' ++ form ∧ Lowered cs ds' ∧ form ∈ lowerForms c := by
  generalize hcs : cs ++ [c] = xs at h
  cases h with
  | nil => simp at hcs
  | snoc rest last =>
      obtain ⟨rfl, hc⟩ := List.append_inj' hcs rfl
      obtain rfl := List.head_eq_of_cons_eq hc
      exact ⟨_, _, rfl, rest, last⟩

/-- A text that ends in an ASCII character in lower case has a last character that becomes this one:
of the forms that are longer or not in the table, none ends in ASCII. -/
theorem Lowered.exists_of_ascii {cs front : List Char} {d : Char} (h : Lowered cs (front ++ [d]))
    (hd : d.toNat < 0x80) : ∃ cs' c, cs = cs' ++ [c] ∧ Lowered cs' front ∧ lowerChar c = [d] := by
  rcases List.eq_nil_or_concat' cs with rfl | ⟨cs', c, rfl⟩
  · simpa using h.eq_nil
  obtain ⟨ds, form, hds, hrest, hform⟩ := h.exists_of_concat
  have hone : ∀ x, form = [x] → front = ds ∧ d = x := by
    rintro x rfl
    obtain ⟨hfront, hlast⟩ := List.append_inj' hds rfl
    exact ⟨hfront, List.head_eq_of_cons_eq hlast⟩
  have hcases : form = lowerChar c ∨ form = [Char.ofNat 0x3C2] := by
    unfold lowerForms at hform
    split at hform
    · simpa using hform
    · exact .inl (by simpa using hform)
  rcases hcases with rfl | rfl
  · rcases lowerChar_cases c with ⟨x, hx⟩ | htwo
    · obtain ⟨rfl, rfl⟩ := hone x hx
      exact ⟨cs', c, rfl, hrest, hx⟩
    · have hsplit : ds ++ lowerChar c = ds ++ ['i'] ++ [Char.ofNat 0x307] := by simp [htwo]
      obtain rfl := List.head_eq_of_cons_eq (List.append_inj' (hds.trans hsplit) rfl).2
      exact absurd hd (by decide)
  · obtain ⟨-, rfl⟩ := hone _ rfl
    exact absurd hd (by decide)

/-- A character in ASCII that ends a text ends it in its one form in lower case. -/
theorem Lowered.exists_of_ascii_last {cs ds : List Char} {c : Char} (h : Lowered (cs ++ [c]) ds)
    (hc : c.toNat < 0x80) : ∃ ds', ds = ds' ++ lowerChar c ∧ Lowered cs ds' := by
  obtain ⟨ds', form, rfl, hrest, hform⟩ := h.exists_of_concat
  rw [lowerForms, if_neg (by omega), List.mem_singleton] at hform
  exact ⟨ds', by rw [hform], hrest⟩

end Relay.Text

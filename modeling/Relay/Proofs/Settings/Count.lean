import Mathlib.Data.Nat.Digits.Defs
import Relay.Proofs.Text.Blank
import Relay.Settings.Environment

/-!
# Numbers that variables set

A variable sets a number when its text, trimmed, is a decimal numeral of a 64-bit word.  `Writes` says
what a numeral is: its digits are data, and its number is the one that they are the digits of.  Reading
goes by an unbounded sum; `wordFrom?` goes by words instead and refuses at the first digit that leaves
them, and comes to the same (`bind_toWord?_digitsFrom?`).
-/

namespace Relay

namespace Numeral

/-! ## Numerals -/

/-- The character of a digit. -/
def digitChar (d : Fin 10) : Char := Char.ofNat (0x30 + d)

/-- The text of digits. -/
def digitText (ds : List (Fin 10)) : String := String.ofList (ds.map digitChar)

/-- The number of digits, the most significant one first. -/
def value (ds : List (Fin 10)) : Nat := Nat.ofDigits 10 (ds.reverse.map Fin.val)

/-- What may stand before the digits. -/
def IsSign (sign : String) : Prop := sign = "" ∨ sign = "+"

/-- The text is a numeral of the number. -/
def Writes (t : String) (n : Nat) : Prop :=
  ∃ sign ds, IsSign sign ∧ ds ≠ [] ∧ t = sign ++ digitText ds ∧ n = value ds

@[simp] theorem digit?_digitChar (d : Fin 10) : digit? (digitChar d) = some d.val := by
  revert d
  decide

theorem isDigit_digitChar (d : Fin 10) : (digitChar d).isDigit = true := by
  revert d
  decide

theorem digitChar_ne_plus (d : Fin 10) : digitChar d ≠ '+' := by
  revert d
  decide

theorem exists_digitChar_of_digit? {c : Char} {n : Nat} (h : digit? c = some n) :
    ∃ d, c = digitChar d := by
  unfold digit? at h
  split at h
  · next hrange =>
    have hlow : 48 ≤ c.toNat := hrange.1
    have hhigh : c.toNat ≤ 57 := hrange.2
    refine ⟨⟨c.toNat - 48, by omega⟩, ?_⟩
    rw [digitChar, Nat.add_sub_cancel' hlow, Char.ofNat_toNat]
  · cases h

@[simp] theorem value_nil : value [] = 0 := rfl

theorem value_snoc (ds : List (Fin 10)) (d : Fin 10) : value (ds ++ [d]) = value ds * 10 + d := by
  rw [value, List.reverse_append, List.reverse_singleton, List.singleton_append, List.map_cons,
    Nat.ofDigits_cons, ← value, Nat.mul_comm, Nat.add_comm]

theorem value_append_zero (k : Nat) (ds : List (Fin 10)) :
    value (List.replicate k 0 ++ ds) = value ds := by
  rw [value, List.reverse_append, List.reverse_replicate, List.map_append, List.map_replicate]
  exact Nat.ofDigits_append_replicate_zero _

theorem value_le_append (front back : List (Fin 10)) : value front ≤ value (front ++ back) := by
  induction back generalizing front with
  | nil => rw [List.append_nil]
  | cons d back ih =>
      have hstep := ih (front ++ [d])
      rw [value_snoc, List.append_assoc] at hstep
      exact Nat.le_trans (by omega) hstep

/-- What stands in a numeral: some digit, nothing but signs and digits, and a sign only at the
front. -/
theorem Writes.chars {t : String} {n : Nat} (h : Writes t n) :
    (∃ x ∈ t.toList, x.isDigit = true) ∧ (∀ x ∈ t.toList, x = '+' ∨ x.isDigit = true) ∧
      '+' ∉ t.toList.tail := by
  obtain ⟨sign, ds, hsign, hds, rfl, -⟩ := h
  obtain ⟨d, rest, rfl⟩ := List.exists_cons_of_ne_nil hds
  have hdigits : ∀ x ∈ (d :: rest).map digitChar, x.isDigit = true := by
    intro x hx
    obtain ⟨e, -, rfl⟩ := List.mem_map.mp hx
    exact isDigit_digitChar e
  have hplus : '+' ∉ (d :: rest).map digitChar := fun hmem => absurd (hdigits _ hmem) (by decide)
  rw [String.toList_append, digitText, String.toList_ofList]
  refine ⟨⟨digitChar d, List.mem_append_right _ List.mem_cons_self, isDigit_digitChar d⟩, ?_, ?_⟩
  · intro x hx
    rcases List.mem_append.mp hx with hx | hx
    · rcases hsign with rfl | rfl
      · cases hx
      · exact .inl (List.mem_singleton.mp hx)
    · exact .inr (hdigits x hx)
  · rcases hsign with rfl | rfl
    · exact fun hmem => hplus (List.mem_of_mem_tail hmem)
    · exact hplus

/-! ## Reading digits -/

/-- What has been read is the number of the digits so far. -/
theorem digitsFrom?_map (front ds : List (Fin 10)) :
    digitsFrom? (value front) (ds.map digitChar) = some (value (front ++ ds)) := by
  induction ds generalizing front with
  | nil => rw [List.append_nil]; rfl
  | cons d ds ih =>
      rw [List.map_cons, digitsFrom?, digit?_digitChar, Option.bind_some, ← value_snoc, ih,
        List.append_assoc]
      rfl

theorem exists_map_of_digitsFrom? {acc n : Nat} {cs : List Char} (h : digitsFrom? acc cs = some n) :
    ∃ ds : List (Fin 10), cs = ds.map digitChar := by
  induction cs generalizing acc with
  | nil => exact ⟨[], rfl⟩
  | cons c cs ih =>
      obtain ⟨m, hc, hcs⟩ := Option.bind_eq_some_iff.mp h
      obtain ⟨d, rfl⟩ := exists_digitChar_of_digit? hc
      obtain ⟨ds, rfl⟩ := ih hcs
      exact ⟨d :: ds, rfl⟩

theorem le_of_digitsFrom? {acc n : Nat} {cs : List Char} (h : digitsFrom? acc cs = some n) :
    acc ≤ n := by
  induction cs generalizing acc with
  | nil => exact (Option.some.inj h).le
  | cons c cs ih =>
      obtain ⟨m, -, hcs⟩ := Option.bind_eq_some_iff.mp h
      have hle := ih hcs
      omega

theorem digits?_map {ds : List (Fin 10)} (h : ds ≠ []) :
    digits? (ds.map digitChar) = some (value ds) := by
  obtain ⟨d, rest, rfl⟩ := List.exists_cons_of_ne_nil h
  exact digitsFrom?_map [] (d :: rest)

theorem exists_of_digits? {cs : List Char} {n : Nat} (h : digits? cs = some n) :
    ∃ ds, ds ≠ [] ∧ cs = ds.map digitChar := by
  cases cs with
  | nil => cases h
  | cons c cs =>
      have hread : digitsFrom? 0 (c :: cs) = some n := h
      obtain ⟨ds, hds⟩ := exists_map_of_digitsFrom? hread
      refine ⟨ds, ?_, hds⟩
      rintro rfl
      cases hds

/-! ## Words -/

theorem toWord?_eq_some_iff {n : Nat} {w : UInt64} : toWord? n = some w ↔ n = w.toNat := by
  unfold toWord?
  split
  · next h =>
    have hsize : n < UInt64.size := h
    rw [Option.some.injEq, ← UInt64.toNat_inj]
    simp [Nat.mod_eq_of_lt hsize]
  · next h =>
    have hlt : w.toNat < wordLimit := w.toNat_lt
    constructor
    · intro hnone
      cases hnone
    · rintro rfl
      exact absurd hlt h

theorem wordChars?_of_ne {c : Char} (h : c ≠ '+') (cs : List Char) :
    wordChars? (c :: cs) = (digits? (c :: cs)).bind toWord? := by
  unfold wordChars?
  split
  · next hcs => exact absurd (List.head_eq_of_cons_eq hcs) h
  · rfl

theorem word?_sign {sign : String} (h : IsSign sign) {ds : List (Fin 10)} (hds : ds ≠ []) :
    word? (sign ++ digitText ds) = (digits? (ds.map digitChar)).bind toWord? := by
  rw [word?, String.toList_append, digitText, String.toList_ofList]
  rcases h with rfl | rfl
  · -- the first character is a digit, and so no sign
    obtain ⟨d, rest, rfl⟩ := List.exists_cons_of_ne_nil hds
    exact wordChars?_of_ne (digitChar_ne_plus d) _
  · rfl

/-- A text that is read as a word has at most a sign before its digits. -/
theorem exists_of_word? {t : String} {w : UInt64} (h : word? t = some w) :
    ∃ sign ds, IsSign sign ∧ ds ≠ [] ∧ t = sign ++ digitText ds := by
  have hshape : ∀ {cs : List Char}, (digits? cs).bind toWord? = some w →
      ∃ ds, ds ≠ [] ∧ String.ofList cs = digitText ds := by
    intro cs hcs
    obtain ⟨n, hn, -⟩ := Option.bind_eq_some_iff.mp hcs
    obtain ⟨ds, hds, rfl⟩ := exists_of_digits? hn
    exact ⟨ds, hds, rfl⟩
  rw [word?] at h
  cases hcs : t.toList with
  | nil =>
      rw [hcs] at h
      cases h
  | cons c cs =>
      rw [hcs] at h
      have ht : t = String.ofList (c :: cs) := by rw [← hcs, String.ofList_toList]
      by_cases hplus : c = '+'
      · subst hplus
        obtain ⟨ds, hds, htext⟩ := hshape h
        exact ⟨"+", ds, .inr rfl, hds, by rw [ht, ← htext, String.ofList_cons]; rfl⟩
      · rw [wordChars?_of_ne hplus] at h
        obtain ⟨ds, hds, htext⟩ := hshape h
        exact ⟨"", ds, .inl rfl, hds, by rw [ht, htext, String.empty_append]⟩

/-- The words that a text writes are read, and nothing else. -/
theorem word?_eq_some_iff {t : String} {w : UInt64} : word? t = some w ↔ Writes t w.toNat := by
  have hread : ∀ {sign ds}, IsSign sign → ds ≠ [] →
      (word? (sign ++ digitText ds) = some w ↔ w.toNat = value ds) := by
    intro sign ds hsign hds
    rw [word?_sign hsign hds, digits?_map hds, Option.bind_some, toWord?_eq_some_iff, eq_comm]
  constructor
  · intro h
    obtain ⟨sign, ds, hsign, hds, rfl⟩ := exists_of_word? h
    exact ⟨sign, ds, hsign, hds, rfl, (hread hsign hds).mp h⟩
  · rintro ⟨sign, ds, hsign, hds, rfl, hw⟩
    exact (hread hsign hds).mpr hw

/-! ## Word by word -/

/-- One more digit after a word, refused when that is no word. -/
def pushDigit? (w : UInt64) (d : Nat) : Option UInt64 :=
  if w.toNat * 10 + d < wordLimit then some (w * 10 + UInt64.ofNat d) else none

/-- The word that the digits continue from `w`, refused at the first of them that leaves the words. -/
def wordFrom? (w : UInt64) : List Char → Option UInt64
  | [] => some w
  | c :: cs => (digit? c).bind fun d => (pushDigit? w d).bind fun w => wordFrom? w cs

/-- A step that is not refused does not wrap. -/
theorem toNat_of_pushDigit? {w u : UInt64} {d : Nat} (h : pushDigit? w d = some u) :
    u.toNat = w.toNat * 10 + d := by
  unfold pushDigit? at h
  split at h
  · next hlt =>
    have hsize : w.toNat * 10 + d < UInt64.size := hlt
    obtain rfl := Option.some.inj h
    have hten : (10 : UInt64).toNat = 10 := rfl
    rw [UInt64.toNat_add, UInt64.toNat_mul, UInt64.toNat_ofNat', hten]
    rw [UInt64.size] at hsize
    omega
  · cases h

/-- Words give what the unbounded sum gives. -/
theorem bind_toWord?_digitsFrom? (w : UInt64) (cs : List Char) :
    (digitsFrom? w.toNat cs).bind toWord? = wordFrom? w cs := by
  induction cs generalizing w with
  | nil => exact toWord?_eq_some_iff.mpr rfl
  | cons c cs ih =>
      rw [digitsFrom?, wordFrom?, Option.bind_assoc]
      refine congrArg _ (funext fun d => ?_)
      cases hpush : pushDigit? w d with
      | some u => rw [Option.bind_some, ← toNat_of_pushDigit? hpush, ih]
      | none =>
          -- the sum only grows, so that it never comes back to the words
          have hlimit : wordLimit ≤ w.toNat * 10 + d := by
            unfold pushDigit? at hpush
            split at hpush
            · cases hpush
            · omega
          rw [Option.bind_none, Option.bind_eq_none_iff]
          intro n hn
          exact if_neg (Nat.not_lt.mpr (Nat.le_trans hlimit (le_of_digitsFrom? hn)))

/-- Below 2^64 the word in hand is the number of the digits so far. -/
theorem wordFrom?_map {front back : List (Fin 10)} (h : value (front ++ back) < 2 ^ 64) :
    wordFrom? 0 (front.map digitChar) = some (UInt64.ofNat (value front)) := by
  have hlt : value front < 2 ^ 64 := Nat.lt_of_le_of_lt (value_le_append front back) h
  have hzero : (0 : UInt64).toNat = value [] := rfl
  rw [← bind_toWord?_digitsFrom?, hzero, digitsFrom?_map, Option.bind_some, List.nil_append,
    toWord?_eq_some_iff]
  exact (UInt64.toNat_ofNat_of_lt' hlt).symm

theorem word?_eq_wordFrom? {sign : String} (h : IsSign sign) {ds : List (Fin 10)} (hds : ds ≠ []) :
    word? (sign ++ digitText ds) = wordFrom? 0 (ds.map digitChar) := by
  rw [word?_sign h hds, ← bind_toWord?_digitsFrom?]
  obtain ⟨d, rest, rfl⟩ := List.exists_cons_of_ne_nil hds
  rfl

theorem word?_append_zero {sign : String} (h : IsSign sign) {ds : List (Fin 10)} (hds : ds ≠ [])
    (k : Nat) :
    word? (sign ++ digitText (List.replicate k 0 ++ ds)) = word? (sign ++ digitText ds) := by
  have hne : List.replicate k 0 ++ ds ≠ [] := List.append_ne_nil_of_right_ne_nil _ hds
  rw [word?_sign h hne, word?_sign h hds, digits?_map hne, digits?_map hds, value_append_zero]

end Numeral

namespace Settings

open Numeral

theorem countOr_of_writes {v : String} {n : Nat} (h : Writes (Text.trim v) n) (hn : n < 2 ^ 64)
    (c : UInt64) : (countOr c (some v)).toNat = n := by
  have hword : (UInt64.ofNat n).toNat = n := UInt64.toNat_ofNat_of_lt' hn
  have hread : word? (Text.trim v) = some (UInt64.ofNat n) := word?_eq_some_iff.mpr (hword.symm ▸ h)
  rw [countOr, hread, Option.getD_some, hword]

theorem countOr_of_not_writes {v : String} (h : ∀ n < 2 ^ 64, ¬ Writes (Text.trim v) n) (c : UInt64) :
    countOr c (some v) = c := by
  have hread : word? (Text.trim v) = none := by
    cases hword : word? (Text.trim v) with
    | none => rfl
    | some w => exact absurd (word?_eq_some_iff.mp hword) (h _ w.toNat_lt)
  rw [countOr, hread, Option.getD_none]

/-- A variable sets a number to the one that its text, trimmed, is a numeral of, if that is a word, and
else leaves it.  So it is left by a text without digits, by one with any other character than digits and
a sign, and by one with a sign that is not at the front.  Zeros before the digits change nothing, and
read word by word the digits never wrap: below 2^64 the word in hand is the number of the digits so far. -/
theorem count_from_variable (v : String) (c : UInt64) :
    (∀ n, Writes (Text.trim v) n → n < 2 ^ 64 → (countOr c (some v)).toNat = n) ∧
    ((∀ n < 2 ^ 64, ¬ Writes (Text.trim v) n) → countOr c (some v) = c) ∧
    ((∀ x ∈ (Text.trim v).toList, ¬ x.isDigit = true) ∨
      (∃ x ∈ (Text.trim v).toList, x ≠ '+' ∧ ¬ x.isDigit = true) ∨
      '+' ∈ (Text.trim v).toList.tail → countOr c (some v) = c) ∧
    ∀ sign ds, IsSign sign → ds ≠ [] → Text.trim v = sign ++ digitText ds →
      (∀ k v', Text.trim v' = sign ++ digitText (List.replicate k 0 ++ ds) →
        countOr c (some v') = countOr c (some v)) ∧
      countOr c (some v) = (wordFrom? 0 (ds.map digitChar)).getD c ∧
      ∀ front back, ds = front ++ back → value ds < 2 ^ 64 →
        ∃ w, wordFrom? 0 (front.map digitChar) = some w ∧ w.toNat = value front := by
  refine ⟨fun n h hn => countOr_of_writes h hn c, fun h => countOr_of_not_writes h c, ?_, ?_⟩
  · intro hbad
    refine countOr_of_not_writes (fun n _ hwrites => ?_) c
    obtain ⟨⟨d, hd, hdigit⟩, hall, hplus⟩ := hwrites.chars
    rcases hbad with hnone | ⟨x, hx, hnotplus, hnotdigit⟩ | htail
    · exact hnone d hd hdigit
    · exact (hall x hx).elim hnotplus hnotdigit
    · exact hplus htail
  · intro sign ds hsign hds hv
    refine ⟨?_, ?_, ?_⟩
    · intro k v' hv'
      rw [countOr, countOr, hv, hv', word?_append_zero hsign hds]
    · rw [countOr, hv, word?_eq_wordFrom? hsign hds]
    · rintro front back rfl hlt
      have hfront : value front < 2 ^ 64 := Nat.lt_of_le_of_lt (value_le_append front back) hlt
      exact ⟨_, wordFrom?_map hlt, UInt64.toNat_ofNat_of_lt' hfront⟩

/-- The largest word, with a sign, a zero and blanks around it, is read; the number after it is not. -/
theorem count_from_variable_largest :
    (countOr 30 (some " +018446744073709551615\n")).toNat = 2 ^ 64 - 1 ∧
      countOr 30 (some "18446744073709551616") = 30 := by
  have hlargest := (count_from_variable " +018446744073709551615\n" 30).1 (2 ^ 64 - 1)
  obtain ⟨-, -, -, hnext⟩ := count_from_variable "18446744073709551616" 30
  refine ⟨hlargest ?_ (by decide), ?_⟩
  · exact ⟨"+", [0, 1, 8, 4, 4, 6, 7, 4, 4, 0, 7, 3, 7, 0, 9, 5, 5, 1, 6, 1, 5], .inr rfl, by decide,
      by decide +kernel, by decide⟩
  · rw [(hnext "" [1, 8, 4, 4, 6, 7, 4, 4, 0, 7, 3, 7, 0, 9, 5, 5, 1, 6, 1, 6] (.inl rfl) (by decide)
      (by decide +kernel)).2.1]
    decide +kernel

end Settings

end Relay

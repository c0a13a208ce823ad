import Relay.Proofs.Json.Grammar

/-!
# The grammar of values

`JsonText part bs` says that the octets `bs` are a JSON value, or what stands in an array or an
object from one of its items on, the bracket that closes it included.  Strings may name half a
character, numbers have no range, and values may stand in each other to any depth.  Skipping agrees
with the grammar: a value that it derives is skipped as a whole (`skip_of_jsonText`), and whatever
is skipped is such a value (`exists_jsonText_of_skip`).
-/

namespace Relay.Json

open Bytes (ascii)

/-! ## Strings -/

/-- What may stand between quotes, whatever it spells. -/
inductive Escaped : Bytes → Prop where
  | nil : Escaped []
  | plain {b : UInt8} {w : Bytes} : b ≠ ascii '"' → b ≠ ascii '\\' → ¬ b < 0x20 → Escaped w →
      Escaped (b :: w)
  | short {e : UInt8} {w : Bytes} : (shortEscape? e).isSome = true → Escaped w →
      Escaped (ascii '\\' :: e :: w)
  | unit {a b c d : UInt8} {w : Bytes} : (hexFour? a b c d).isSome = true → Escaped w →
      Escaped (ascii '\\' :: ascii 'u' :: a :: b :: c :: d :: w)

/-- A string that spells something is a string. -/
theorem Spelling.escaped {w o : Bytes} (h : Spelling w o) : Escaped w := by
  induction h with
  | nil => exact .nil
  | plain hquote hslash hlow _ ih => exact .plain hquote hslash hlow ih
  | short he _ ih => exact .short (by rw [he]; rfl) ih
  | unit hn _ _ _ ih => exact .unit (by rw [hn]; rfl) ih
  | pair hn _ _ hm _ _ ih => exact .unit (by rw [hn]; rfl) (.unit (by rw [hm]; rfl) ih)

theorem skipString_quote (rest : Bytes) : skipString (ascii '"' :: rest) = .ok rest := by
  rw [skipString.eq_def]
  simp

theorem skipString_plain {b : UInt8} (hquote : b ≠ ascii '"') (hslash : b ≠ ascii '\\')
    (hlow : ¬ b < 0x20) (rest : Bytes) : skipString (b :: rest) = skipString rest := by
  rw [skipString.eq_def]
  simp [hquote, hslash, hlow]

theorem skipString_short {e : UInt8} (he : (shortEscape? e).isSome = true) (rest : Bytes) :
    skipString (ascii '\\' :: e :: rest) = skipString rest := by
  have hquote : ascii '\\' ≠ ascii '"' := by decide
  rw [skipString.eq_def]
  simp [hquote, he]

theorem skipString_unit {a b c d : UInt8} (h : (hexFour? a b c d).isSome = true) (rest : Bytes) :
    skipString (ascii '\\' :: ascii 'u' :: a :: b :: c :: d :: rest) = skipString rest := by
  have hquote : ascii '\\' ≠ ascii '"' := by decide
  have hu : shortEscape? (ascii 'u') = none := by decide
  rw [skipString.eq_def]
  simp [hquote, hu, h]

theorem skipString_of_escaped {w : Bytes} (h : Escaped w) (rest : Bytes) :
    skipString (w ++ ascii '"' :: rest) = .ok rest := by
  induction h with
  | nil => exact skipString_quote rest
  | plain hquote hslash hlow _ ih =>
      rw [List.cons_append, skipString_plain hquote hslash hlow, ih]
  | short he _ ih => rw [List.cons_append, List.cons_append, skipString_short he, ih]
  | unit hn _ ih =>
      simp only [List.cons_append]
      rw [skipString_unit hn, ih]

theorem escaped_of_skipString {bs rest : Bytes} (h : skipString bs = .ok rest) :
    ∃ w, Escaped w ∧ bs = w ++ ascii '"' :: rest := by
  fun_induction skipString bs with
  -- the reader refuses
  | case1 | case3 | case5 | case7 | case8 | case9 => cases h
  | case2 left =>
      cases h
      exact ⟨[], .nil, rfl⟩
  | case4 e left he _ ih =>
      obtain ⟨w, hw, rfl⟩ := ih h
      exact ⟨_, .short he hw, rfl⟩
  | case6 u _ hu a b c d left hn _ ih =>
      obtain ⟨w, hw, rfl⟩ := ih h
      obtain rfl : u = ascii 'u' := Decidable.of_not_not hu
      exact ⟨_, .unit hn hw, rfl⟩
  | case10 b left hquote hslash hlow ih =>
      obtain ⟨w, hw, rfl⟩ := ih h
      exact ⟨_, .plain hquote hslash hlow hw, rfl⟩

/-! ## Numbers -/

theorem ne_of_isDigit {d b : UInt8} (hd : isDigit d = true) (hb : isDigit b = false) : d ≠ b := by
  rintro rfl
  rw [hb] at hd
  cases hd

theorem isSpace_of_isDigit {d : UInt8} (hd : isDigit d = true) : isSpace d = false := by
  simp [isSpace, ne_of_isDigit hd (show isDigit 0x20 = false by decide),
    ne_of_isDigit hd (show isDigit 0x0A = false by decide),
    ne_of_isDigit hd (show isDigit 0x09 = false by decide),
    ne_of_isDigit hd (show isDigit 0x0D = false by decide)]

/-- Digits only. -/
def AllDigits (ds : Bytes) : Prop := ∀ d ∈ ds, isDigit d = true

/-- No digit comes first. -/
def NoDigit (bs : Bytes) : Prop := ∀ b, bs.head? = some b → isDigit b = false

/-- The exponent of a number, if it has one. -/
inductive ExponentText : Bytes → Prop where
  | none : ExponentText []
  | some {e d : UInt8} {sign ds : Bytes} : e = ascii 'e' ∨ e = ascii 'E' →
      sign = [] ∨ sign = [ascii '+'] ∨ sign = [ascii '-'] → isDigit d = true → AllDigits ds →
      ExponentText (e :: (sign ++ d :: ds))

/-- The fraction of a number, if it has one. -/
inductive FractionText : Bytes → Prop where
  | none : FractionText []
  | some {d : UInt8} {ds : Bytes} : isDigit d = true → AllDigits ds →
      FractionText (ascii '.' :: d :: ds)

/-- The whole part of a number: a zero alone, or digits of which the first is no zero. -/
inductive WholeText : Bytes → Prop where
  | zero : WholeText [ascii '0']
  | digits {d : UInt8} {ds : Bytes} : isDigit d = true → d ≠ ascii '0' → AllDigits ds →
      WholeText (d :: ds)

/-- A number without its sign. -/
inductive UnsignedText : Bytes → Prop where
  | mk {w f e : Bytes} : WholeText w → FractionText f → ExponentText e →
      UnsignedText (w ++ (f ++ e))

theorem UnsignedText.exists_cons {n : Bytes} (h : UnsignedText n) :
    ∃ d n', n = d :: n' ∧ isDigit d = true := by
  cases h with
  | mk hw _ _ =>
      cases hw with
      | zero => exact ⟨_, _, rfl, by decide⟩
      | digits hd _ _ => exact ⟨_, _, rfl, hd⟩

theorem dropWhile_digits {ds rest : Bytes} (h : AllDigits ds) (hrest : NoDigit rest) :
    (ds ++ rest).dropWhile isDigit = rest := by
  rw [List.dropWhile_append_of_pos h]
  cases rest with
  | nil => rfl
  | cons b rest => rw [List.dropWhile_cons_of_neg (by simp [hrest b rfl])]

theorem exists_digits (bs : Bytes) : ∃ ds, AllDigits ds ∧ bs = ds ++ bs.dropWhile isDigit :=
  ⟨bs.takeWhile isDigit, List.all_eq_true.mp List.all_takeWhile,
    List.takeWhile_append_dropWhile.symm⟩

theorem Stops.noDigit {rest : Bytes} (h : Stops rest) : NoDigit rest := fun b hb => (h b hb).1

theorem ExponentText.noDigit {e rest : Bytes} (h : ExponentText e) (hstops : Stops rest) :
    NoDigit (e ++ rest) := by
  cases h with
  | none => exact hstops.noDigit
  | @some e d sign ds he hsign hd hds =>
      intro b hb
      obtain rfl : e = b := by simpa using hb
      rcases he with rfl | rfl <;> decide

/-- What follows the whole part of a number starts with no digit. -/
theorem FractionText.noDigit {f e rest : Bytes} (h : FractionText f) (he : ExponentText e)
    (hstops : Stops rest) : NoDigit (f ++ (e ++ rest)) := by
  cases h with
  | none => exact he.noDigit hstops
  | some hd hds =>
      intro b hb
      obtain rfl : ascii '.' = b := by simpa using hb
      decide

/-! ### Numbers are skipped -/

theorem skipOptionalExponent_of_exponentText {e rest : Bytes} (h : ExponentText e)
    (hstops : Stops rest) : skipOptionalExponent (e ++ rest) = .ok rest := by
  cases h with
  | none =>
      cases rest with
      | nil => rfl
      | cons b rest =>
          obtain ⟨-, -, hlower, hupper⟩ := hstops b rfl
          rw [List.nil_append, skipOptionalExponent, if_neg (not_or.mpr ⟨hlower, hupper⟩)]
  | @some e d sign ds he hsign hd hds =>
      have hdigits : (ds ++ rest).dropWhile isDigit = rest := dropWhile_digits hds hstops.noDigit
      rw [List.cons_append, skipOptionalExponent, if_pos he, List.append_assoc, List.cons_append]
      have hplain : ¬ (d = ascii '+' ∨ d = ascii '-') := by
        rintro (rfl | rfl) <;> exact absurd hd (by decide)
      rcases hsign with rfl | rfl | rfl
      · simp [skipExponent, hplain, hd, hdigits]
      · simp [skipExponent, hd, hdigits]
      · simp [skipExponent, hd, hdigits]

theorem skipFraction_of_ne {bs : Bytes} (h : ∀ b, bs.head? = some b → b ≠ ascii '.') :
    skipFraction bs = skipOptionalExponent bs := by
  cases bs with
  | nil => rfl
  | cons b rest =>
      rw [skipFraction.eq_def]
      simp only [if_neg (h b rfl)]

theorem skipFraction_of_fractionText {f e rest : Bytes} (h : FractionText f) (he : ExponentText e)
    (hstops : Stops rest) : skipFraction (f ++ (e ++ rest)) = .ok rest := by
  have hexponent := skipOptionalExponent_of_exponentText he hstops
  cases h with
  | none =>
      rw [List.nil_append, skipFraction_of_ne, hexponent]
      intro b hb
      cases he with
      | none => exact (hstops b hb).2.1
      | @some e d sign ds he hsign hd hds =>
          obtain rfl : e = b := by simpa using hb
          rcases he with rfl | rfl <;> decide
  | some hd hds =>
      rw [List.cons_append, List.cons_append, skipFraction, if_pos rfl]
      simp only [hd, if_true]
      rw [dropWhile_digits hds (he.noDigit hstops), hexponent]

theorem skipNumber_of_unsignedText {n rest : Bytes} (h : UnsignedText n) (hstops : Stops rest) :
    skipNumber (n ++ rest) = .ok rest := by
  cases h with
  | @mk w f e hw hf he =>
      have hfraction := skipFraction_of_fractionText hf he hstops
      have hdigit := hf.noDigit he hstops
      rw [List.append_assoc, List.append_assoc]
      cases hw with
      | zero =>
          rw [List.singleton_append, skipNumber.eq_def]
          cases hleft : f ++ (e ++ rest) with
          | nil =>
              rw [hleft] at hfraction
              exact hfraction
          | cons b left =>
              rw [hleft] at hdigit hfraction
              simp only [hdigit b rfl, Bool.false_eq_true, if_true, if_false]
              exact hfraction
      | digits hd hzero hds =>
          rw [List.cons_append, skipNumber.eq_def]
          simp only [if_neg hzero, if_pos hd]
          rw [dropWhile_digits hds hdigit, hfraction]

/-! ### What is skipped is a number -/

theorem exists_of_skipExponent {bs rest : Bytes} (h : skipExponent bs = .ok rest) :
    ∃ sign d ds, (sign = [] ∨ sign = [ascii '+'] ∨ sign = [ascii '-']) ∧ isDigit d = true ∧
      AllDigits ds ∧ bs = sign ++ d :: (ds ++ rest) := by
  unfold skipExponent at h
  cases bs with
  | nil => cases h
  | cons b left =>
      by_cases hb : b = ascii '+' ∨ b = ascii '-'
      · simp only [if_pos hb] at h
        cases left with
        | nil => cases h
        | cons d left =>
            simp only at h
            split at h
            · next hd =>
              cases h
              obtain ⟨ds, hds, hleft⟩ := exists_digits left
              refine ⟨[b], d, ds, .inr ?_, hd, hds, by rw [← hleft]; rfl⟩
              rcases hb with rfl | rfl
              · exact .inl rfl
              · exact .inr rfl
            · cases h
      · simp only [if_neg hb] at h
        split at h
        · next hd =>
          cases h
          obtain ⟨ds, hds, hleft⟩ := exists_digits left
          exact ⟨[], b, ds, .inl rfl, hd, hds, by rw [← hleft]; rfl⟩
        · cases h

theorem exists_exponentText {bs rest : Bytes} (h : skipOptionalExponent bs = .ok rest) :
    ∃ e, ExponentText e ∧ bs = e ++ rest := by
  cases bs with
  | nil =>
      cases h
      exact ⟨[], .none, rfl⟩
  | cons b left =>
      rw [skipOptionalExponent] at h
      split at h
      · next he =>
        obtain ⟨sign, d, ds, hsign, hd, hds, rfl⟩ := exists_of_skipExponent h
        exact ⟨_, .some he hsign hd hds, by simp⟩
      · cases h
        exact ⟨[], .none, rfl⟩

theorem exists_fractionText {bs rest : Bytes} (h : skipFraction bs = .ok rest) :
    ∃ f e, FractionText f ∧ ExponentText e ∧ bs = f ++ (e ++ rest) := by
  rw [skipFraction.eq_def] at h
  split at h
  · next b left =>
    split at h
    · next hb =>
      subst hb
      split at h
      · next d left =>
        split at h
        · next hd =>
          obtain ⟨ds, hds, hleft⟩ := exists_digits left
          obtain ⟨e, he, hrest⟩ := exists_exponentText h
          exact ⟨_, e, .some hd hds, he, by rw [List.cons_append, List.cons_append, ← hrest, ← hleft]⟩
        · cases h
      · cases h
    · obtain ⟨e, he, hrest⟩ := exists_exponentText h
      exact ⟨[], e, .none, he, hrest⟩
  · cases h
    exact ⟨[], [], .none, .none, rfl⟩

theorem exists_unsignedText {bs rest : Bytes} (h : skipNumber bs = .ok rest) :
    ∃ n, UnsignedText n ∧ bs = n ++ rest := by
  have hmk : ∀ {w left : Bytes}, WholeText w → skipFraction left = .ok rest →
      ∃ n, UnsignedText n ∧ w ++ left = n ++ rest := by
    intro w left hw hleft
    obtain ⟨f, e, hf, he, rfl⟩ := exists_fractionText hleft
    exact ⟨_, .mk hw hf he, by simp⟩
  rw [skipNumber.eq_def] at h
  split at h
  · cases h
  · next b left =>
    split at h
    · next hb =>
      subst hb
      split at h
      · split at h
        · cases h
        · exact hmk .zero h
      · exact hmk .zero h
    · next hzero =>
      split at h
      · next hd =>
        obtain ⟨ds, hds, hleft⟩ := exists_digits left
        obtain ⟨n, hn, hsplit⟩ := hmk (.digits hd hzero hds) h
        exact ⟨n, hn, by rw [← hsplit, List.cons_append, ← hleft]⟩
      · cases h

/-! ## Values -/

/-- What holds other values. -/
inductive Kind where
  | array
  | object
  deriving DecidableEq, Repr

namespace Kind

/-- The bracket that opens it. -/
def opening : Kind → UInt8
  | array => ascii '['
  | object => ascii '{'

/-- The bracket that closes it. -/
def closing : Kind → UInt8
  | array => ascii ']'
  | object => ascii '}'

/-- Skips its items and the bracket that closes it. -/
def skipItems : Kind → Nat → Bytes → Except Fault Bytes
  | array => skipElements
  | object => skipMembers

/-- Skips what stands after the bracket that opens it. -/
def skipOpened (k : Kind) (fuel : Nat) (bs : Bytes) : Except Fault Bytes :=
  match skipSpace bs with
  | [] => .error .ended
  | c :: after => if c = k.closing then .ok after else k.skipItems fuel bs

end Kind

/-- A stretch of JSON text. -/
inductive Part where
  | value
  /-- The items of an array or an object from one of them on, and the bracket that closes it. -/
  | items (k : Kind)
  /-- What follows an item. -/
  | tail (k : Kind)
  deriving DecidableEq, Repr

/-- The octets are such a stretch of JSON text. -/
inductive JsonText : Part → Bytes → Prop where
  | null : JsonText .value (ascii 'n' :: nullTail)
  | yes : JsonText .value (ascii 't' :: trueTail)
  | no : JsonText .value (ascii 'f' :: falseTail)
  | number {n : Bytes} : UnsignedText n → JsonText .value n
  | negative {n : Bytes} : UnsignedText n → JsonText .value (ascii '-' :: n)
  | string {w : Bytes} : Escaped w → JsonText .value (ascii '"' :: (w ++ [ascii '"']))
  | empty {k : Kind} {ws : Bytes} : Spaces ws → JsonText .value (k.opening :: (ws ++ [k.closing]))
  | full {k : Kind} {is : Bytes} : JsonText (.items k) is → JsonText .value (k.opening :: is)
  | element {ws v t : Bytes} : Spaces ws → JsonText .value v → JsonText (.tail .array) t →
      JsonText (.items .array) (ws ++ (v ++ t))
  | member {ws w ws₁ ws₂ v t : Bytes} : Spaces ws → Escaped w → Spaces ws₁ → Spaces ws₂ →
      JsonText .value v → JsonText (.tail .object) t →
      JsonText (.items .object)
        (ws ++ ascii '"' :: (w ++ ascii '"' :: (ws₁ ++ ascii ':' :: (ws₂ ++ (v ++ t)))))
  | close {k : Kind} {ws : Bytes} : Spaces ws → JsonText (.tail k) (ws ++ [k.closing])
  | comma {k : Kind} {ws is : Bytes} : Spaces ws → JsonText (.items k) is →
      JsonText (.tail k) (ws ++ ascii ',' :: is)

theorem JsonText.length_pos {part : Part} {bs : Bytes} (h : JsonText part bs) : 0 < bs.length := by
  induction h with
  | number h =>
      obtain ⟨d, n, rfl, -⟩ := h.exists_cons
      exact Nat.succ_pos _
  | _ =>
      simp only [List.length_append, List.length_cons]
      omega

theorem JsonText.stops {k : Kind} {t : Bytes} (h : JsonText (.tail k) t) (rest : Bytes) :
    Stops (t ++ rest) := by
  cases h with
  | close hws =>
      rw [List.append_assoc]
      exact (stops_cons (by cases k <;> decide) _).spaces hws
  | comma hws _ =>
      rw [List.append_assoc]
      exact (stops_cons (by decide) _).spaces hws

/-! ### What the reader does with each piece -/

/-- Skips a value that starts with the octet `b`. -/
def skipFrom (fuel : Nat) (b : UInt8) (rest : Bytes) : Except Fault Bytes :=
  if b = ascii 'n' then word nullTail rest
  else if b = ascii 't' then word trueTail rest
  else if b = ascii 'f' then word falseTail rest
  else if b = ascii '-' then skipNumber rest
  else if isDigit b then skipNumber (b :: rest)
  else if b = ascii '"' then skipString rest
  else if b = ascii '[' then Kind.array.skipOpened fuel rest
  else if b = ascii '{' then Kind.object.skipOpened fuel rest
  else .error .malformed

-- The two lemmas below are all that is used of the definition of `skipValue`.

theorem skipValue_of_nil (fuel : Nat) {bs : Bytes} (h : skipSpace bs = []) :
    skipValue (fuel + 1) bs = .error .ended := by
  rw [skipValue]
  simp only [h]

theorem skipValue_of_cons (fuel : Nat) {bs rest : Bytes} {b : UInt8}
    (h : skipSpace bs = b :: rest) : skipValue (fuel + 1) bs = skipFrom fuel b rest := by
  rw [skipValue]
  simp only [h]
  rfl

theorem skipValue_spaces {ws : Bytes} (hws : Spaces ws) (fuel : Nat) (bs : Bytes) :
    skipValue fuel (ws ++ bs) = skipValue fuel bs := by
  have hskip := skipSpace_append hws bs
  cases fuel with
  | zero => rfl
  | succ fuel =>
      cases h : skipSpace bs with
      | nil => rw [skipValue_of_nil fuel h, skipValue_of_nil fuel (hskip.trans h)]
      | cons b rest => rw [skipValue_of_cons fuel h, skipValue_of_cons fuel (hskip.trans h)]

section Heads

variable (fuel : Nat) (rest : Bytes)

theorem skipValue_cons {b : UInt8} (hb : isSpace b = false) :
    skipValue (fuel + 1) (b :: rest) = skipFrom fuel b rest :=
  skipValue_of_cons fuel (skipSpace_cons hb rest)

theorem skipValue_null : skipValue (fuel + 1) (ascii 'n' :: nullTail ++ rest) = .ok rest := by
  rw [List.cons_append, skipValue_cons fuel _ (by decide)]
  rfl

theorem skipValue_yes : skipValue (fuel + 1) (ascii 't' :: trueTail ++ rest) = .ok rest := by
  rw [List.cons_append, skipValue_cons fuel _ (by decide)]
  rfl

theorem skipValue_no : skipValue (fuel + 1) (ascii 'f' :: falseTail ++ rest) = .ok rest := by
  rw [List.cons_append, skipValue_cons fuel _ (by decide)]
  rfl

theorem skipValue_digit {d : UInt8} (hd : isDigit d = true) :
    skipValue (fuel + 1) (d :: rest) = skipNumber (d :: rest) := by
  have hne : ∀ b : UInt8, isDigit b = false → d ≠ b := fun _ => ne_of_isDigit hd
  rw [skipValue_cons fuel rest (isSpace_of_isDigit hd), skipFrom,
    if_neg (hne (ascii 'n') (by decide)), if_neg (hne (ascii 't') (by decide)),
    if_neg (hne (ascii 'f') (by decide)), if_neg (hne (ascii '-') (by decide)), if_pos hd]

theorem skipValue_minus : skipValue (fuel + 1) (ascii '-' :: rest) = skipNumber rest := by
  rw [skipValue_cons fuel rest (by decide)]
  rfl

theorem skipValue_quote : skipValue (fuel + 1) (ascii '"' :: rest) = skipString rest := by
  rw [skipValue_cons fuel rest (by decide)]
  rfl

theorem skipValue_opening (k : Kind) :
    skipValue (fuel + 1) (k.opening :: rest) = k.skipOpened fuel rest := by
  cases k with
  | array =>
      rw [Kind.opening, skipValue_cons fuel rest (by decide)]
      rfl
  | object =>
      rw [Kind.opening, skipValue_cons fuel rest (by decide)]
      rfl

end Heads

theorem skipSeparator_of_spaces {ws : Bytes} (hws : Spaces ws) (k : Kind) {b : UInt8}
    (hb : isSpace b = false) (rest : Bytes) :
    skipSeparator k.closing (ws ++ b :: rest) =
      if b = k.closing then .ok (true, rest)
      else if b = ascii ',' then .ok (false, rest) else .error .malformed := by
  rw [skipSeparator, skipSpace_spaces hws hb]

/-- What follows an item is skipped: the end, or a comma and more. -/
def Kind.skipTail (k : Kind) (fuel : Nat) (bs : Bytes) : Except Fault Bytes :=
  (skipSeparator k.closing bs).bind fun (done, rest) =>
    if done then .ok rest else k.skipItems fuel rest

theorem skipItems_array (fuel : Nat) (bs : Bytes) :
    Kind.array.skipItems (fuel + 1) bs = (skipValue fuel bs).bind (Kind.array.skipTail fuel) := by
  rfl

theorem skipItems_object {ws : Bytes} (hws : Spaces ws) (fuel : Nat) (bs : Bytes) :
    Kind.object.skipItems (fuel + 1) (ws ++ ascii '"' :: bs) =
      (skipString bs).bind fun left => (colon left).bind fun left =>
        (skipValue fuel left).bind (Kind.object.skipTail fuel) := by
  rw [Kind.skipItems, skipMembers, skipSpace_spaces hws (by decide)]
  rfl

/-- A value starts with no space and no bracket that closes an array. -/
theorem JsonText.exists_cons {v : Bytes} (h : JsonText .value v) :
    ∃ b v', v = b :: v' ∧ isSpace b = false ∧ b ≠ ascii ']' := by
  cases h with
  | number h =>
      obtain ⟨d, n, rfl, hd⟩ := h.exists_cons
      exact ⟨d, n, rfl, isSpace_of_isDigit hd, ne_of_isDigit hd (by decide)⟩
  | @empty k ws _ => exact ⟨_, _, rfl, by cases k <;> decide, by cases k <;> decide⟩
  | @full k is _ => exact ⟨_, _, rfl, by cases k <;> decide, by cases k <;> decide⟩
  | _ => exact ⟨_, _, rfl, by decide, by decide⟩

/-- Items do not start with the bracket that closes them. -/
theorem JsonText.skipSpace_items {k : Kind} {is : Bytes} (h : JsonText (.items k) is)
    (rest : Bytes) : ∃ c after, skipSpace (is ++ rest) = c :: after ∧ c ≠ k.closing := by
  cases h with
  | element hws hv _ =>
      obtain ⟨b, v', rfl, hspace, hb⟩ := hv.exists_cons
      rw [List.append_assoc, List.append_assoc, List.cons_append, skipSpace_spaces hws hspace]
      exact ⟨b, _, rfl, hb⟩
  | member hws _ _ _ _ _ =>
      rw [List.append_assoc, List.cons_append, skipSpace_spaces hws (by decide)]
      exact ⟨_, _, rfl, by decide⟩

/-- The reader skips this stretch of text and leaves the rest. -/
def Skips (fuel : Nat) (rest : Bytes) : Part → Bytes → Prop
  | .value, bs => skipValue fuel (bs ++ rest) = .ok rest
  | .items k, bs => k.skipItems fuel (bs ++ rest) = .ok rest
  | .tail k, bs => k.skipTail fuel (bs ++ rest) = .ok rest

theorem exists_fuel {n fuel : Nat} (hn : 0 < n) (hfuel : 2 * n ≤ fuel) :
    ∃ less, fuel = less + 1 :=
  ⟨fuel - 1, by omega⟩

/-- What the grammar derives is skipped, with fuel for twice its length. -/
theorem skips_of_jsonText {part : Part} {bs : Bytes} (h : JsonText part bs) (rest : Bytes)
    (hstops : part = .value → Stops rest) (fuel : Nat) (hfuel : 2 * bs.length ≤ fuel) :
    Skips fuel rest part bs := by
  induction h generalizing rest fuel with
  | null =>
      obtain ⟨fuel, rfl⟩ := exists_fuel JsonText.null.length_pos hfuel
      exact skipValue_null fuel rest
  | yes =>
      obtain ⟨fuel, rfl⟩ := exists_fuel JsonText.yes.length_pos hfuel
      exact skipValue_yes fuel rest
  | no =>
      obtain ⟨fuel, rfl⟩ := exists_fuel JsonText.no.length_pos hfuel
      exact skipValue_no fuel rest
  | @number n hn =>
      obtain ⟨fuel, rfl⟩ := exists_fuel (JsonText.number hn).length_pos hfuel
      obtain ⟨d, n', rfl, hd⟩ := hn.exists_cons
      show skipValue (fuel + 1) (d :: (n' ++ rest)) = .ok rest
      rw [skipValue_digit fuel _ hd]
      exact skipNumber_of_unsignedText hn (hstops rfl)
  | @negative n hn =>
      obtain ⟨fuel, rfl⟩ := exists_fuel (JsonText.negative hn).length_pos hfuel
      show skipValue (fuel + 1) (ascii '-' :: (n ++ rest)) = .ok rest
      rw [skipValue_minus]
      exact skipNumber_of_unsignedText hn (hstops rfl)
  | @string w hw =>
      obtain ⟨fuel, rfl⟩ := exists_fuel (JsonText.string hw).length_pos hfuel
      show skipValue (fuel + 1) (ascii '"' :: (w ++ [ascii '"'] ++ rest)) = .ok rest
      rw [skipValue_quote, List.append_assoc]
      exact skipString_of_escaped hw rest
  | @empty k ws hws =>
      obtain ⟨fuel, rfl⟩ := exists_fuel (JsonText.empty (k := k) hws).length_pos hfuel
      show skipValue (fuel + 1) (k.opening :: (ws ++ [k.closing] ++ rest)) = .ok rest
      have hclosing : isSpace k.closing = false := by cases k <;> decide
      rw [skipValue_opening, Kind.skipOpened, List.append_assoc, List.singleton_append,
        skipSpace_spaces hws hclosing]
      exact if_pos rfl
  | @full k is his ih =>
      obtain ⟨fuel, rfl⟩ := exists_fuel (JsonText.full his).length_pos hfuel
      rw [List.length_cons] at hfuel
      obtain ⟨c, after, hskip, hc⟩ := his.skipSpace_items rest
      show skipValue (fuel + 1) (k.opening :: (is ++ rest)) = .ok rest
      rw [skipValue_opening, Kind.skipOpened, hskip]
      exact (if_neg hc).trans (ih rest nofun fuel (by omega))
  | @element ws v t hws hv ht ihv iht =>
      obtain ⟨fuel, rfl⟩ := exists_fuel (JsonText.element hws hv ht).length_pos hfuel
      have hvalue := hv.length_pos
      have htail := ht.length_pos
      simp only [List.length_append] at hfuel
      have hskip : skipValue fuel (v ++ (t ++ rest)) = .ok (t ++ rest) :=
        ihv (t ++ rest) (fun _ => ht.stops rest) fuel (by omega)
      show Kind.array.skipItems (fuel + 1) (ws ++ (v ++ t) ++ rest) = .ok rest
      rw [skipItems_array, List.append_assoc, List.append_assoc, skipValue_spaces hws, hskip]
      exact iht rest nofun fuel (by omega)
  | @member ws w ws₁ ws₂ v t hws hw hws₁ hws₂ hv ht ihv iht =>
      obtain ⟨fuel, rfl⟩ := exists_fuel (JsonText.member hws hw hws₁ hws₂ hv ht).length_pos hfuel
      simp only [List.length_append, List.length_cons] at hfuel
      have hskip : skipValue fuel (v ++ (t ++ rest)) = .ok (t ++ rest) :=
        ihv (t ++ rest) (fun _ => ht.stops rest) fuel (by omega)
      have hcolon : colon (ws₁ ++ ascii ':' :: (ws₂ ++ (v ++ (t ++ rest)))) =
          .ok (ws₂ ++ (v ++ (t ++ rest))) := colon_eq_ok_iff.mpr ⟨ws₁, hws₁, rfl⟩
      show Kind.object.skipItems (fuel + 1) _ = .ok rest
      simp only [List.append_assoc, List.cons_append]
      rw [skipItems_object hws, skipString_of_escaped hw, Except.bind, hcolon, Except.bind,
        skipValue_spaces hws₂, hskip]
      exact iht rest nofun fuel (by omega)
  | @close k ws hws =>
      show k.skipTail fuel (ws ++ [k.closing] ++ rest) = .ok rest
      rw [Kind.skipTail, List.append_assoc, List.singleton_append,
        skipSeparator_of_spaces hws k (by cases k <;> decide), if_pos rfl]
      rfl
  | @comma k ws is hws his ih =>
      have hcomma : ascii ',' ≠ k.closing := by cases k <;> decide
      simp only [List.length_append, List.length_cons] at hfuel
      show k.skipTail fuel (ws ++ ascii ',' :: is ++ rest) = .ok rest
      rw [Kind.skipTail, List.append_assoc, List.cons_append,
        skipSeparator_of_spaces hws k (by decide), if_neg hcomma, if_pos rfl]
      exact ih rest nofun fuel (by omega)

/-! ### What is skipped is derived -/

theorem word_eq_ok_iff {ws bs rest : Bytes} : word ws bs = .ok rest ↔ bs = ws ++ rest := by
  induction ws generalizing bs with
  | nil =>
      rw [word, Except.ok.injEq]
      rfl
  | cons w ws ih =>
      cases bs with
      | nil => simp [word]
      | cons b bs =>
          rw [word]
          split
          · next hb => rw [ih, List.cons_append, hb, List.cons.injEq, and_iff_right rfl]
          · next hb => simp [hb]

/-- With this fuel, what is skipped as a value is derived as one. -/
def ValuesDerived (fuel : Nat) : Prop :=
  ∀ bs rest, skipValue fuel bs = .ok rest →
    ∃ ws v, Spaces ws ∧ JsonText .value v ∧ bs = ws ++ (v ++ rest)

/-- With this fuel, what is skipped as items is derived as items. -/
def ItemsDerived (k : Kind) (fuel : Nat) : Prop :=
  ∀ bs rest, k.skipItems fuel bs = .ok rest → ∃ is, JsonText (.items k) is ∧ bs = is ++ rest

theorem exists_jsonText_of_skipOpened {k : Kind} {fuel : Nat} (hitems : ItemsDerived k fuel)
    {left rest : Bytes} (h : k.skipOpened fuel left = .ok rest) :
    ∃ v, JsonText .value v ∧ k.opening :: left = v ++ rest := by
  unfold Kind.skipOpened at h
  split at h
  · cases h
  · next c after hskip =>
    split at h
    · next hc =>
      subst hc
      cases h
      obtain ⟨ws, hws, rfl⟩ := exists_spaces_of_skipSpace hskip
      exact ⟨_, .empty (k := k) hws, by simp⟩
    · obtain ⟨is, his, rfl⟩ := hitems left rest h
      exact ⟨_, .full his, rfl⟩

theorem exists_jsonText_of_skipTail {k : Kind} {fuel : Nat} (hitems : ItemsDerived k fuel)
    {bs rest : Bytes} (h : k.skipTail fuel bs = .ok rest) :
    ∃ t, JsonText (.tail k) t ∧ bs = t ++ rest := by
  obtain ⟨⟨done, left⟩, hseparator, hmore⟩ := bind_eq_ok.mp h
  rw [skipSeparator] at hseparator
  split at hseparator
  · cases hseparator
  · next b after hskip =>
    obtain ⟨ws, hws, rfl⟩ := exists_spaces_of_skipSpace hskip
    split at hseparator
    · next hb =>
      subst hb
      cases hseparator
      cases hmore
      exact ⟨_, .close hws, by simp⟩
    split at hseparator
    · next hb =>
      subst hb
      cases hseparator
      obtain ⟨is, his, rfl⟩ := hitems left rest hmore
      exact ⟨_, .comma hws his, by simp⟩
    · cases hseparator

theorem exists_jsonText_of_skipFrom {fuel : Nat} (hitems : ∀ k, ItemsDerived k fuel) {b : UInt8}
    {left rest : Bytes} (h : skipFrom fuel b left = .ok rest) :
    ∃ v, JsonText .value v ∧ b :: left = v ++ rest := by
  unfold skipFrom at h
  split at h
  · next hb => exact ⟨_, .null, by rw [hb, word_eq_ok_iff.mp h]; rfl⟩
  split at h
  · next hb => exact ⟨_, .yes, by rw [hb, word_eq_ok_iff.mp h]; rfl⟩
  split at h
  · next hb => exact ⟨_, .no, by rw [hb, word_eq_ok_iff.mp h]; rfl⟩
  split at h
  · next hb =>
    obtain ⟨n, hn, rfl⟩ := exists_unsignedText h
    exact ⟨_, .negative hn, by rw [hb]; rfl⟩
  split at h
  · obtain ⟨n, hn, hleft⟩ := exists_unsignedText h
    exact ⟨n, .number hn, hleft⟩
  split at h
  · next hb =>
    obtain ⟨w, hw, rfl⟩ := escaped_of_skipString h
    exact ⟨_, .string hw, by rw [hb]; simp⟩
  split at h
  · next hb =>
    subst hb
    exact exists_jsonText_of_skipOpened (hitems .array) h
  split at h
  · next hb =>
    subst hb
    exact exists_jsonText_of_skipOpened (hitems .object) h
  · cases h

theorem valuesDerived_succ {fuel : Nat} (hitems : ∀ k, ItemsDerived k fuel) :
    ValuesDerived (fuel + 1) := by
  intro bs rest h
  cases hskip : skipSpace bs with
  | nil =>
      rw [skipValue_of_nil fuel hskip] at h
      cases h
  | cons b left =>
      obtain ⟨ws, hws, rfl⟩ := exists_spaces_of_skipSpace hskip
      rw [skipValue_of_cons fuel hskip] at h
      obtain ⟨v, hv, hleft⟩ := exists_jsonText_of_skipFrom hitems h
      exact ⟨ws, v, hws, hv, by rw [hleft]⟩

theorem itemsDerived_succ {fuel : Nat} (hvalues : ValuesDerived fuel)
    (hitems : ∀ k, ItemsDerived k fuel) (k : Kind) : ItemsDerived k (fuel + 1) := by
  intro bs rest h
  cases k with
  | array =>
      rw [skipItems_array] at h
      obtain ⟨left, hvalue, htail⟩ := bind_eq_ok.mp h
      obtain ⟨ws, v, hws, hv, rfl⟩ := hvalues bs left hvalue
      obtain ⟨t, ht, rfl⟩ := exists_jsonText_of_skipTail (hitems .array) htail
      exact ⟨_, .element hws hv ht, by simp⟩
  | object =>
      rw [Kind.skipItems, skipMembers] at h
      split at h
      · cases h
      · next b left hskip =>
        split at h
        · next hb =>
          subst hb
          obtain ⟨ws, hws, rfl⟩ := exists_spaces_of_skipSpace hskip
          obtain ⟨left₁, hname, h⟩ := bind_eq_ok.mp h
          obtain ⟨left₂, hcolon, h⟩ := bind_eq_ok.mp h
          obtain ⟨left₃, hvalue, htail⟩ := bind_eq_ok.mp h
          obtain ⟨w, hw, rfl⟩ := escaped_of_skipString hname
          obtain ⟨ws₁, hws₁, rfl⟩ := colon_eq_ok_iff.mp hcolon
          obtain ⟨ws₂, v, hws₂, hv, rfl⟩ := hvalues left₂ left₃ hvalue
          obtain ⟨t, ht, rfl⟩ := exists_jsonText_of_skipTail (hitems .object) htail
          exact ⟨_, .member hws hw hws₁ hws₂ hv ht, by simp⟩
        · cases h

/-- By induction on the fuel, for values and for the items of both kinds together. -/
theorem derived_of_skip (fuel : Nat) : ValuesDerived fuel ∧ ∀ k, ItemsDerived k fuel := by
  induction fuel with
  | zero =>
      refine ⟨fun bs rest h => ?_, fun k bs rest h => ?_⟩
      · cases h
      · cases k with
        | array => cases h
        | object => cases h
  | succ fuel ih => exact ⟨valuesDerived_succ ih.2, itemsDerived_succ ih.1 ih.2⟩

/-- A value is skipped with the space before it. -/
theorem skip_of_jsonText {v : Bytes} (h : JsonText .value v) {ws rest : Bytes} (hws : Spaces ws)
    (hstops : Stops rest) : skip (ws ++ (v ++ rest)) = .ok rest := by
  rw [skip, skipValue_spaces hws]
  refine skips_of_jsonText h rest (fun _ => hstops) _ ?_
  simp only [List.length_append]
  omega

theorem exists_jsonText_of_skip {bs rest : Bytes} (h : skip bs = .ok rest) :
    ∃ ws v, Spaces ws ∧ JsonText .value v ∧ bs = ws ++ (v ++ rest) :=
  (derived_of_skip _).1 bs rest h

end Relay.Json

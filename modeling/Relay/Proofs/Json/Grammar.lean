import Relay.Json.Decode
import Relay.Proofs.Text.Utf8

/-!
# The grammar of objects

The members of an object are the same whatever its values are, so their grammar (`MembersText`) and
what is proved of reading them (`members_eq_ok_iff`) take the values and the reader of one member as
parameters.  Tables of texts are the first case.

`TableText bs ms` says that the octets `bs` are a JSON object whose members, in order and with
their repetitions, are the names and texts `ms`.  It is built from what a string spells
(`Spelling`, `Quoted`) and what stands between braces, and says nothing of how a text is read.
Reading agrees with it: `decodeTable_eq_ok_iff` says that a text is read as a table
exactly when the grammar derives it, and that the members then enter the table one after the other,
so that the last of each name counts.
-/

namespace Relay.Json

open Bytes (ascii)

theorem bind_eq_ok {ε α β : Type} {x : Except ε α} {f : α → Except ε β} {b : β} :
    x.bind f = .ok b ↔ ∃ a, x = .ok a ∧ f a = .ok b := by
  cases x <;> simp [Except.bind]

theorem map_eq_ok {ε α β : Type} {x : Except ε α} {f : α → β} {b : β} :
    x.map f = .ok b ↔ ∃ a, x = .ok a ∧ f a = b := by
  cases x <;> simp [Except.map]

/-! ## Space -/

/-- Octets that may stand between tokens. -/
def Spaces (bs : Bytes) : Prop := ∀ b ∈ bs, isSpace b = true

theorem Spaces.nil : Spaces [] := nofun

theorem skipSpace_append {ws : Bytes} (h : Spaces ws) (rest : Bytes) :
    skipSpace (ws ++ rest) = skipSpace rest := by
  unfold skipSpace
  exact List.dropWhile_append_of_pos h

theorem skipSpace_cons {b : UInt8} (h : isSpace b = false) (rest : Bytes) :
    skipSpace (b :: rest) = b :: rest := by
  simp [skipSpace, h]

theorem skipSpace_spaces {ws : Bytes} (hws : Spaces ws) {b : UInt8} (hb : isSpace b = false)
    (rest : Bytes) : skipSpace (ws ++ b :: rest) = b :: rest := by
  rw [skipSpace_append hws, skipSpace_cons hb]

theorem exists_spaces (bs : Bytes) : ∃ ws, Spaces ws ∧ bs = ws ++ skipSpace bs := by
  induction bs with
  | nil => exact ⟨[], .nil, rfl⟩
  | cons b bs ih =>
      cases hb : isSpace b with
      | false => exact ⟨[], .nil, by rw [skipSpace_cons hb]; rfl⟩
      | true =>
          obtain ⟨ws, hws, hsplit⟩ := ih
          refine ⟨b :: ws, ?_, ?_⟩
          · intro c hc
            rcases List.mem_cons.mp hc with rfl | hc
            · exact hb
            · exact hws c hc
          · rw [show skipSpace (b :: bs) = skipSpace bs from List.dropWhile_cons_of_pos hb,
              List.cons_append, ← hsplit]

theorem exists_spaces_of_skipSpace {bs rest : Bytes} {b : UInt8} (h : skipSpace bs = b :: rest) :
    ∃ ws, Spaces ws ∧ bs = ws ++ b :: rest := by
  obtain ⟨ws, hws, hsplit⟩ := exists_spaces bs
  exact ⟨ws, hws, h ▸ hsplit⟩

theorem finished_iff (bs : Bytes) : finished bs = true ↔ Spaces bs := by
  constructor
  · intro h
    obtain ⟨ws, hws, hsplit⟩ := exists_spaces bs
    rw [List.isEmpty_iff.mp h, List.append_nil] at hsplit
    rwa [hsplit]
  · intro h
    have hskip := skipSpace_append h []
    rw [List.append_nil] at hskip
    rw [finished, hskip]
    rfl

/-- A whole text is read when nothing but space is left. -/
theorem whole_eq_ok_iff {α : Type} {r : Except Fault (α × Bytes)} {a : α} :
    whole r = .ok a ↔ ∃ rest, r = .ok (a, rest) ∧ Spaces rest := by
  have hwhole : whole r = r.bind fun p => if finished p.2 then .ok p.1 else .error .malformed := rfl
  rw [hwhole, bind_eq_ok]
  constructor
  · rintro ⟨⟨a', rest⟩, hr, hfinished⟩
    simp only at hfinished
    split at hfinished
    · next hrest =>
      cases hfinished
      exact ⟨rest, hr, (finished_iff rest).mp hrest⟩
    · cases hfinished
  · rintro ⟨rest, hr, hrest⟩
    exact ⟨(a, rest), hr, if_pos ((finished_iff rest).mpr hrest)⟩

/-! ## Strings -/

/-- Between quotes, `written` spells the octets. -/
inductive Spelling : (written octets : Bytes) → Prop where
  | nil : Spelling [] []
  | plain {b : UInt8} {w o : Bytes} : b ≠ ascii '"' → b ≠ ascii '\\' → ¬ b < 0x20 →
      Spelling w o → Spelling (b :: w) (b :: o)
  | short {e x : UInt8} {w o : Bytes} : shortEscape? e = some x → Spelling w o →
      Spelling (ascii '\\' :: e :: w) (x :: o)
  | unit {a b c d : UInt8} {n : Nat} {w o : Bytes} : hexFour? a b c d = some n →
      isTrailUnit n = false → isLeadUnit n = false → Spelling w o →
      Spelling (ascii '\\' :: ascii 'u' :: a :: b :: c :: d :: w)
        (String.utf8EncodeChar (Char.ofNat n) ++ o)
  | pair {a b c d a' b' c' d' : UInt8} {n m : Nat} {w o : Bytes} : hexFour? a b c d = some n →
      isTrailUnit n = false → isLeadUnit n = true → hexFour? a' b' c' d' = some m →
      isTrailUnit m = true → Spelling w o →
      Spelling (ascii '\\' :: ascii 'u' :: a :: b :: c :: d ::
          ascii '\\' :: ascii 'u' :: a' :: b' :: c' :: d' :: w)
        (String.utf8EncodeChar (joinUnits n m) ++ o)

/-! ### What the reader does with each piece -/

section Steps

variable (acc rest : Bytes)

theorem stringFrom_quote : stringFrom acc (ascii '"' :: rest) = .ok (acc.reverse, rest) := by
  rw [stringFrom.eq_def]
  simp

theorem stringFrom_plain {b : UInt8} (hquote : b ≠ ascii '"') (hslash : b ≠ ascii '\\')
    (hlow : ¬ b < 0x20) : stringFrom acc (b :: rest) = stringFrom (b :: acc) rest := by
  rw [stringFrom.eq_def]
  simp [hquote, hslash, hlow]

theorem stringFrom_short {e x : UInt8} (he : shortEscape? e = some x) :
    stringFrom acc (ascii '\\' :: e :: rest) = stringFrom (x :: acc) rest := by
  have hquote : ascii '\\' ≠ ascii '"' := by decide
  rw [stringFrom.eq_def]
  simp [hquote, he]

theorem stringFrom_unit {a b c d : UInt8} {n : Nat} (hn : hexFour? a b c d = some n)
    (htrail : isTrailUnit n = false) (hlead : isLeadUnit n = false) :
    stringFrom acc (ascii '\\' :: ascii 'u' :: a :: b :: c :: d :: rest) =
      stringFrom (backwards (Char.ofNat n) ++ acc) rest := by
  have hquote : ascii '\\' ≠ ascii '"' := by decide
  have hu : shortEscape? (ascii 'u') = none := by decide
  rw [stringFrom.eq_def]
  simp [hquote, hu, hn, htrail, hlead]

theorem stringFrom_pair {a b c d a' b' c' d' : UInt8} {n m : Nat} (hn : hexFour? a b c d = some n)
    (htrail : isTrailUnit n = false) (hlead : isLeadUnit n = true)
    (hm : hexFour? a' b' c' d' = some m) (htrail' : isTrailUnit m = true) :
    stringFrom acc (ascii '\\' :: ascii 'u' :: a :: b :: c :: d ::
        ascii '\\' :: ascii 'u' :: a' :: b' :: c' :: d' :: rest) =
      stringFrom (backwards (joinUnits n m) ++ acc) rest := by
  have hquote : ascii '\\' ≠ ascii '"' := by decide
  have hu : shortEscape? (ascii 'u') = none := by decide
  rw [stringFrom.eq_def]
  simp [hquote, hu, hn, htrail, hlead, hm, htrail']

end Steps

theorem stringFrom_of_spelling {w o : Bytes} (h : Spelling w o) (acc rest : Bytes) :
    stringFrom acc (w ++ ascii '"' :: rest) = .ok (acc.reverse ++ o, rest) := by
  induction h generalizing acc with
  | nil => rw [List.nil_append, stringFrom_quote, List.append_nil]
  | plain hquote hslash hlow _ ih =>
      rw [List.cons_append, stringFrom_plain _ _ hquote hslash hlow, ih]
      simp
  | short he _ ih =>
      rw [List.cons_append, List.cons_append, stringFrom_short _ _ he, ih]
      simp
  | unit hn htrail hlead _ ih =>
      simp only [List.cons_append]
      rw [stringFrom_unit _ _ hn htrail hlead, ih]
      simp [backwards]
  | pair hn htrail hlead hm htrail' _ ih =>
      simp only [List.cons_append]
      rw [stringFrom_pair _ _ hn htrail hlead hm htrail', ih]
      simp [backwards]

theorem spelling_of_stringFrom {acc bs octets rest : Bytes}
    (h : stringFrom acc bs = .ok (octets, rest)) :
    ∃ w o, bs = w ++ ascii '"' :: rest ∧ Spelling w o ∧ octets = acc.reverse ++ o := by
  fun_induction stringFrom acc bs with
  -- the reader refuses
  | case1 | case3 | case5 | case6 | case7 | case8 | case9 | case10 | case11 | case12 | case14
  | case15 | case17 | case18 => cases h
  | case2 acc rest' =>
      cases h
      exact ⟨[], [], rfl, .nil, by simp⟩
  | case4 acc e rest' x he _ ih =>
      obtain ⟨w, o, rfl, hw, rfl⟩ := ih h
      exact ⟨_, _, rfl, .short he hw, by simp⟩
  -- two units that stand for one character
  | case13 acc u _ hu a b c d n hn htrail hlead x hx y hy a' b' c' d' rest' m hm htrail' _ ih =>
      obtain ⟨w, o, hrest, hw, hoctets⟩ := ih h
      rw [hrest, hoctets, Decidable.of_not_not hu, Decidable.of_not_not hx,
        Decidable.of_not_not hy]
      refine ⟨ascii '\\' :: ascii 'u' :: a :: b :: c :: d ::
        ascii '\\' :: ascii 'u' :: a' :: b' :: c' :: d' :: w,
        String.utf8EncodeChar (joinUnits n m) ++ o, rfl, ?_, ?_⟩
      · exact .pair hn (Bool.eq_false_iff.mpr htrail) hlead hm htrail' hw
      · simp [backwards]
  | case16 acc u _ hu a b c d rest' n hn htrail hlead _ ih =>
      obtain ⟨w, o, rfl, hw, rfl⟩ := ih h
      obtain rfl : u = ascii 'u' := Decidable.of_not_not hu
      refine ⟨ascii '\\' :: ascii 'u' :: a :: b :: c :: d :: w,
        String.utf8EncodeChar (Char.ofNat n) ++ o, rfl, ?_, ?_⟩
      · exact .unit hn (Bool.eq_false_iff.mpr htrail) (Bool.eq_false_iff.mpr hlead) hw
      · simp [backwards]
  | case19 acc b rest' hquote hslash hlow ih =>
      obtain ⟨w, o, rfl, hw, rfl⟩ := ih h
      exact ⟨_, _, rfl, .plain hquote hslash hlow hw, by simp⟩

/-- A JSON string, quotes included, that spells a text. -/
inductive Quoted : Bytes → String → Prop where
  | mk {w o : Bytes} {s : String} : Spelling w o → Utf8.decode? o = some s →
      Quoted (ascii '"' :: (w ++ [ascii '"'])) s

theorem string_eq_ok_iff {bs rest : Bytes} {s : String} :
    string bs = .ok (s, rest) ↔ ∃ w, Quoted (ascii '"' :: w) s ∧ bs = w ++ rest := by
  have hstring : string bs = (stringFrom [] bs).bind fun r =>
      (Utf8.decode? r.1).elim (.error .malformed) fun text => .ok (text, r.2) := by
    refine bind_congr fun r => ?_
    cases hdecode : Utf8.decode? r.1 <;> simp only [hdecode, Option.elim]
  rw [hstring, bind_eq_ok]
  constructor
  · rintro ⟨⟨octets, left⟩, hfrom, hdecode⟩
    obtain ⟨w, o, rfl, hw, hoctets⟩ := spelling_of_stringFrom hfrom
    obtain rfl : octets = o := hoctets
    cases htext : Utf8.decode? octets with
    | none => simp [htext] at hdecode
    | some text =>
        simp only [htext, Option.elim] at hdecode
        cases hdecode
        exact ⟨_, .mk hw htext, by simp⟩
  · rintro ⟨w', hquoted, rfl⟩
    cases hquoted with
    | @mk w o _ hw htext =>
        refine ⟨(o, rest), ?_, by simp only [htext, Option.elim]⟩
        rw [List.append_assoc, List.singleton_append, stringFrom_of_spelling hw]
        rfl

theorem text_eq_ok_iff {bs rest : Bytes} {s : String} :
    text bs = .ok (s, rest) ↔ ∃ ws q, Spaces ws ∧ Quoted q s ∧ bs = ws ++ q ++ rest := by
  constructor
  · intro h
    rw [text] at h
    split at h
    · cases h
    · next b left hskip =>
      split at h
      · next hb =>
        subst hb
        obtain ⟨ws, hws, rfl⟩ := exists_spaces_of_skipSpace hskip
        obtain ⟨w, hw, rfl⟩ := string_eq_ok_iff.mp h
        exact ⟨ws, _, hws, hw, by simp⟩
      · cases h
  · rintro ⟨ws, q, hws, hq, rfl⟩
    cases hq with
    | @mk w o _ hw htext =>
        rw [text, List.append_assoc, List.cons_append, skipSpace_spaces hws (by decide)]
        exact string_eq_ok_iff.mpr ⟨_, .mk hw htext, rfl⟩

theorem colon_eq_ok_iff {bs rest : Bytes} :
    colon bs = .ok rest ↔ ∃ ws, Spaces ws ∧ bs = ws ++ ascii ':' :: rest := by
  constructor
  · intro h
    rw [colon] at h
    split at h
    · cases h
    · next b left hskip =>
      split at h
      · next hb =>
        subst hb
        cases h
        exact exists_spaces_of_skipSpace hskip
      · cases h
  · rintro ⟨ws, hws, rfl⟩
    rw [colon, skipSpace_spaces hws (by decide)]
    rfl

/-! ## Members -/

/-- A name, a colon and a value, with space around the colon; `V` tells which octets a value is. -/
inductive MemberText {α : Type} (V : Bytes → α → Prop) : Bytes → String × α → Prop where
  | mk {q ws ws' v : Bytes} {name : String} {a : α} : Quoted q name → Spaces ws → Spaces ws' →
      V v a → MemberText V (q ++ (ws ++ ascii ':' :: (ws' ++ v))) (name, a)

/-- What stands between the brace that opens an object and the one that closes it, which is
included; commas stand between members, and `first` tells that none has come yet. -/
inductive MembersText {α : Type} (V : Bytes → α → Prop) :
    (first : Bool) → Bytes → List (String × α) → Prop where
  | close {first : Bool} {ws : Bytes} : Spaces ws → MembersText V first (ws ++ [ascii '}']) []
  | first {ws m rest : Bytes} {e : String × α} {es : List (String × α)} : Spaces ws →
      MemberText V m e → MembersText V false rest es →
      MembersText V true (ws ++ (m ++ rest)) (e :: es)
  | more {ws ws' m rest : Bytes} {e : String × α} {es : List (String × α)} : Spaces ws →
      Spaces ws' → MemberText V m e → MembersText V false rest es →
      MembersText V false (ws ++ ascii ',' :: (ws' ++ (m ++ rest))) (e :: es)

theorem MemberText.exists_cons {α : Type} {V : Bytes → α → Prop} {m : Bytes} {e : String × α}
    (h : MemberText V m e) : ∃ m', m = ascii '"' :: m' := by
  cases h with
  | mk hq _ _ _ =>
      cases hq with
      | mk _ _ => exact ⟨_, rfl⟩

theorem MembersText.length_lt {α : Type} {V : Bytes → α → Prop} {first : Bool} {w : Bytes}
    {ms : List (String × α)} (h : MembersText V first w ms) : ms.length < w.length := by
  induction h with
  | close _ => simp
  | first _ hm _ ih =>
      obtain ⟨m', rfl⟩ := hm.exists_cons
      simp only [List.length_append, List.length_cons]
      omega
  | more _ _ hm _ ih =>
      simp only [List.length_append, List.length_cons]
      omega

/-! ### What may follow a value -/

/-- A number before the text ends where the text starts. -/
def Stops (rest : Bytes) : Prop :=
  ∀ b, rest.head? = some b →
    isDigit b = false ∧ b ≠ ascii '.' ∧ b ≠ ascii 'e' ∧ b ≠ ascii 'E'

theorem Stops.spaces {ws rest : Bytes} (hws : Spaces ws) (h : Stops rest) : Stops (ws ++ rest) := by
  cases ws with
  | nil => exact h
  | cons w ws =>
      intro b hb
      obtain rfl : w = b := by simpa using hb
      have hspace : ((w = 0x20 ∨ w = 0x0A) ∨ w = 0x09) ∨ w = 0x0D := by
        simpa [isSpace] using hws w List.mem_cons_self
      rcases hspace with ((rfl | rfl) | rfl) | rfl <;> decide

theorem stops_cons {b : UInt8}
    (h : isDigit b = false ∧ b ≠ ascii '.' ∧ b ≠ ascii 'e' ∧ b ≠ ascii 'E') (rest : Bytes) :
    Stops (b :: rest) := by
  intro c hc
  obtain rfl : b = c := by simpa using hc
  exact h

theorem MembersText.stops {α : Type} {V : Bytes → α → Prop} {w : Bytes} {ms : List (String × α)}
    (h : MembersText V false w ms) (rest : Bytes) : Stops (w ++ rest) := by
  cases h with
  | close hws =>
      rw [List.append_assoc]
      exact (stops_cons (by decide) _).spaces hws
  | more hws _ _ _ =>
      rw [List.append_assoc]
      exact (stops_cons (by decide) _).spaces hws

/-! ### Reading members

What a reader of members does is given by what it does with one: `Step s e s'` says that the member
`e` takes the state `s` to `s'`. -/

/-- The members take the state `s` to `s'`, one after the other. -/
inductive Steps {σ ε : Type} (Step : σ → ε → σ → Prop) : σ → List ε → σ → Prop where
  | nil {s : σ} : Steps Step s [] s
  | cons {s s₁ s' : σ} {e : ε} {es : List ε} :
      Step s e s₁ → Steps Step s₁ es s' → Steps Step s (e :: es) s'

section Steps

variable {σ ε : Type} {Step : σ → ε → σ → Prop} {s s' : σ}

theorem steps_nil_iff : Steps Step s [] s' ↔ s' = s := by
  constructor
  · intro h
    cases h
    rfl
  · rintro rfl
    exact .nil

theorem steps_cons_iff {e : ε} {es : List ε} :
    Steps Step s (e :: es) s' ↔ ∃ s₁, Step s e s₁ ∧ Steps Step s₁ es s' := by
  constructor
  · intro h
    cases h with
    | cons hstep hsteps => exact ⟨_, hstep, hsteps⟩
  · rintro ⟨s₁, hstep, hsteps⟩
    exact .cons hstep hsteps

end Steps

section Members

variable {σ α : Type} {V : Bytes → α → Prop}
  {member : σ → String → Bytes → Except Fault (σ × Bytes)} {Step : σ → String × α → σ → Prop}

/-- A member whose value the grammar derives is read as `Step` says, and nothing after it. -/
def Enters (V : Bytes → α → Prop) (member : σ → String → Bytes → Except Fault (σ × Bytes))
    (Step : σ → String × α → σ → Prop) : Prop :=
  ∀ (ws ws' v rest : Bytes) (a : α), Spaces ws → Spaces ws' → V v a → Stops rest →
    ∀ (s : σ) (name : String) (s' : σ) (rest' : Bytes),
      member s name (ws ++ ascii ':' :: (ws' ++ v) ++ rest) = .ok (s', rest') ↔
        rest' = rest ∧ Step s (name, a) s'

/-- Whatever is read as a member is derived by the grammar, and is read as `Step` says. -/
def Derived (V : Bytes → α → Prop) (member : σ → String → Bytes → Except Fault (σ × Bytes))
    (Step : σ → String × α → σ → Prop) : Prop :=
  ∀ (s : σ) (name : String) (bs : Bytes) (s' : σ) (rest : Bytes),
    member s name bs = .ok (s', rest) → ∃ ws ws' v a, Spaces ws ∧ Spaces ws' ∧ V v a ∧
      bs = ws ++ ascii ':' :: (ws' ++ v) ++ rest ∧ Step s (name, a) s'

/-- One member after the quote that opens its name, and the members after it. -/
def named (member : σ → String → Bytes → Except Fault (σ × Bytes)) (fuel : Nat) (s : σ)
    (bs : Bytes) : Except Fault (σ × Bytes) :=
  (string bs).bind fun (name, left) => (member s name left).bind fun (s, left) =>
    members member fuel false s left

theorem named_eq_ok_iff (hread : Enters V member Step) {m bs rest : Bytes} {e : String × α}
    (hm : MemberText V m e) (hstops : Stops rest) (hbs : ascii '"' :: bs = m ++ rest) (fuel : Nat)
    (s s' : σ) (rest' : Bytes) :
    named member fuel s bs = .ok (s', rest') ↔
      ∃ s₁, Step s e s₁ ∧ members member fuel false s₁ rest = .ok (s', rest') := by
  cases hm with
  | @mk q ws ws' v name a hq hws hws' hv =>
      cases hq with
      | @mk w o _ hw htext =>
          have hsplit : bs = (w ++ [ascii '"']) ++ (ws ++ ascii ':' :: (ws' ++ v) ++ rest) := by
            simpa using hbs
          have hstring := string_eq_ok_iff.mpr ⟨_, .mk hw htext, hsplit⟩
          rw [named, hstring, Except.bind, bind_eq_ok]
          constructor
          · rintro ⟨⟨s₁, left⟩, hmember, hmore⟩
            obtain ⟨rfl, hstep⟩ := (hread _ _ _ _ _ hws hws' hv hstops s name s₁ left).mp hmember
            exact ⟨s₁, hstep, hmore⟩
          · rintro ⟨s₁, hstep, hmore⟩
            refine ⟨(s₁, rest), ?_, hmore⟩
            exact (hread _ _ _ _ _ hws hws' hv hstops s name s₁ rest).mpr ⟨rfl, hstep⟩

theorem exists_memberText_of_named (hread : Derived V member Step) {fuel : Nat} {s s' : σ}
    {bs rest : Bytes} (h : named member fuel s bs = .ok (s', rest)) :
    ∃ m e left s₁, MemberText V m e ∧ ascii '"' :: bs = m ++ left ∧ Step s e s₁ ∧
      members member fuel false s₁ left = .ok (s', rest) := by
  obtain ⟨⟨name, left⟩, hstring, h⟩ := bind_eq_ok.mp h
  obtain ⟨⟨s₁, left₁⟩, hmember, hmore⟩ := bind_eq_ok.mp h
  obtain ⟨q, hq, rfl⟩ := string_eq_ok_iff.mp hstring
  obtain ⟨ws, ws', v, a, hws, hws', hv, rfl, hstep⟩ := hread _ _ _ _ _ hmember
  exact ⟨_, (name, a), left₁, s₁, .mk hq hws hws' hv, by simp, hstep, hmore⟩

/-- What is read as members is derived by the grammar. -/
theorem exists_membersText_of_members (hread : Derived V member Step) {fuel : Nat} {first : Bool}
    {s s' : σ} {bs rest : Bytes} (h : members member fuel first s bs = .ok (s', rest)) :
    ∃ w ms, MembersText V first w ms ∧ bs = w ++ rest ∧ Steps Step s ms s' := by
  induction fuel generalizing first s bs with
  | zero => cases h
  | succ fuel ih =>
      rw [members] at h
      split at h
      · cases h
      · next b left hskip =>
        simp only at h
        split at h
        · next hb =>
          subst hb
          obtain ⟨ws, hws, rfl⟩ := exists_spaces_of_skipSpace hskip
          cases h
          exact ⟨_, [], .close hws, by simp, .nil⟩
        split at h
        -- the first member has no comma in front
        · next hfirst =>
          subst hfirst
          split at h
          · next hb =>
            subst hb
            obtain ⟨m, e, left', s₁, hm, hbs, hstep, hmore⟩ := exists_memberText_of_named hread h
            obtain ⟨ws, hws, rfl⟩ := exists_spaces_of_skipSpace hskip
            obtain ⟨w, ms, hw, rfl, hsteps⟩ := ih hmore
            refine ⟨_, e :: ms, .first hws hm hw, ?_, .cons hstep hsteps⟩
            rw [hbs]
            simp
          · cases h
        · next hfirst =>
          obtain rfl : first = false := Bool.eq_false_iff.mpr hfirst
          split at h
          · next hb =>
            subst hb
            split at h
            · cases h
            · next c left' hskip' =>
              split at h
              · next hc =>
                subst hc
                obtain ⟨m, e, left'', s₁, hm, hbs, hstep, hmore⟩ :=
                  exists_memberText_of_named hread h
                obtain ⟨ws, hws, rfl⟩ := exists_spaces_of_skipSpace hskip
                obtain ⟨ws', hws', rfl⟩ := exists_spaces_of_skipSpace hskip'
                obtain ⟨w, ms, hw, rfl, hsteps⟩ := ih hmore
                refine ⟨_, e :: ms, .more hws hws' hm hw, ?_, .cons hstep hsteps⟩
                rw [hbs]
                simp
              · cases h
          · cases h

/-- What the grammar derives is read as members, with fuel for each and one more. -/
theorem members_eq_ok_iff (hread : Enters V member Step) {first : Bool} {w : Bytes}
    {ms : List (String × α)} (h : MembersText V first w ms) {fuel : Nat}
    (hfuel : ms.length < fuel) (s s' : σ) (rest rest' : Bytes) :
    members member fuel first s (w ++ rest) = .ok (s', rest') ↔
      rest' = rest ∧ Steps Step s ms s' := by
  have hquote : ascii '"' ≠ ascii '}' := by decide
  have hcomma : ascii ',' ≠ ascii '}' := by decide
  have hcons : ∀ {e : String × α} {es : List (String × α)} {s : σ},
      (∃ s₁, Step s e s₁ ∧ rest' = rest ∧ Steps Step s₁ es s') ↔
        rest' = rest ∧ Steps Step s (e :: es) s' := by
    intro e es s
    rw [steps_cons_iff, ← exists_and_left]
    exact exists_congr fun s₁ => and_left_comm
  induction h generalizing fuel s with
  | close hws =>
      obtain ⟨fuel, rfl⟩ := Nat.exists_eq_add_one_of_ne_zero (Nat.ne_zero_of_lt hfuel)
      rw [List.append_assoc, List.singleton_append, members, skipSpace_spaces hws (by decide)]
      simp only [if_true, Except.ok.injEq, Prod.mk.injEq, steps_nil_iff]
      rw [and_comm, eq_comm, eq_comm (a := s)]
  | @first ws m left e ms hws hm hmore ih =>
      obtain ⟨fuel, rfl⟩ := Nat.exists_eq_add_one_of_ne_zero (Nat.ne_zero_of_lt hfuel)
      obtain ⟨m', rfl⟩ := hm.exists_cons
      have hnamed := named_eq_ok_iff hread hm (hmore.stops rest) rfl fuel s s' rest'
      simp only [ih (Nat.lt_of_succ_lt_succ hfuel), hcons] at hnamed
      rw [← hnamed, List.append_assoc, List.append_assoc, List.cons_append, members,
        skipSpace_spaces hws (by decide)]
      simp only [if_neg hquote, if_true]
      rfl
  | @more ws ws' m left e ms hws hws' hm hmore ih =>
      obtain ⟨fuel, rfl⟩ := Nat.exists_eq_add_one_of_ne_zero (Nat.ne_zero_of_lt hfuel)
      obtain ⟨m', rfl⟩ := hm.exists_cons
      have hnamed := named_eq_ok_iff hread hm (hmore.stops rest) rfl fuel s s' rest'
      simp only [ih (Nat.lt_of_succ_lt_succ hfuel), hcons] at hnamed
      rw [← hnamed, List.append_assoc, List.cons_append, List.append_assoc, List.append_assoc,
        List.cons_append, members, skipSpace_spaces hws (by decide)]
      simp only [if_neg hcomma, if_true, Bool.false_eq_true, if_false,
        skipSpace_spaces hws' (show isSpace (ascii '"') = false by decide)]
      rfl

end Members

/-! ## Tables of texts -/

/-- A JSON object of texts, with space around it. -/
inductive TableText : Bytes → List (String × String) → Prop where
  | mk {ws w ws' : Bytes} {es : List (String × String)} : Spaces ws → MembersText Quoted true w es →
      Spaces ws' → TableText (ws ++ ascii '{' :: (w ++ ws')) es

section TextMember

variable {σ : Type} (put : σ → String × String → σ)

/-- The reader of a member whose value is a text. -/
def textMember (s : σ) (name : String) (bs : Bytes) : Except Fault (σ × Bytes) :=
  ((colon bs).bind text).map fun r => (put s (name, r.1), r.2)

/-- A member is put into the state. -/
def Puts (s : σ) (m : String × String) (s' : σ) : Prop := s' = put s m

theorem steps_puts_iff {s s' : σ} {ms : List (String × String)} :
    Steps (Puts put) s ms s' ↔ s' = ms.foldl put s := by
  induction ms generalizing s with
  | nil => exact steps_nil_iff
  | cons m ms ih =>
      rw [steps_cons_iff]
      constructor
      · rintro ⟨_, rfl, hsteps⟩
        exact ih.mp hsteps
      · intro h
        exact ⟨_, rfl, ih.mpr h⟩

theorem textMember_eq_ok_iff {s s' : σ} {name : String} {bs rest : Bytes} :
    textMember put s name bs = .ok (s', rest) ↔
      ∃ ws ws' v value, Spaces ws ∧ Spaces ws' ∧ Quoted v value ∧
        bs = ws ++ ascii ':' :: (ws' ++ v) ++ rest ∧ s' = put s (name, value) := by
  rw [textMember, map_eq_ok]
  constructor
  · rintro ⟨⟨value, rest'⟩, hbind, hput⟩
    cases hput
    obtain ⟨left, hcolon, htext⟩ := bind_eq_ok.mp hbind
    obtain ⟨ws, hws, rfl⟩ := colon_eq_ok_iff.mp hcolon
    obtain ⟨ws', v, hws', hv, rfl⟩ := text_eq_ok_iff.mp htext
    exact ⟨ws, ws', v, value, hws, hws', hv, by simp, rfl⟩
  · rintro ⟨ws, ws', v, value, hws, hws', hv, rfl, rfl⟩
    refine ⟨(value, rest), bind_eq_ok.mpr ⟨ws' ++ v ++ rest, ?_, ?_⟩, rfl⟩
    · exact colon_eq_ok_iff.mpr ⟨ws, hws, by simp⟩
    · exact text_eq_ok_iff.mpr ⟨ws', v, hws', hv, rfl⟩

theorem enters_textMember : Enters Quoted (textMember put) (Puts put) := by
  intro ws ws' v rest value hws hws' hv _ s name s' rest'
  have hread : textMember put s name (ws ++ ascii ':' :: (ws' ++ v) ++ rest) =
      .ok (put s (name, value), rest) :=
    (textMember_eq_ok_iff put).mpr ⟨ws, ws', v, value, hws, hws', hv, rfl, rfl⟩
  rw [hread, Except.ok.injEq, Prod.mk.injEq, Puts, and_comm, eq_comm, eq_comm (a := s')]

theorem derived_textMember : Derived Quoted (textMember put) (Puts put) :=
  fun _ _ _ _ _ => (textMember_eq_ok_iff put).mp

end TextMember

/-- The members of a table can be read into a list, last first. -/
theorem TableText.members_eq_ok {bs : Bytes} {ms : List (String × String)} (h : TableText bs ms)
    {fuel : Nat} (hfuel : ms.length < fuel) :
    ∃ rest, members (textMember fun l m => m :: l) fuel true [] (skipSpace bs).tail =
      .ok (ms.reverse, rest) := by
  cases h with
  | @mk ws w ws' _ hws hw _ =>
      refine ⟨ws', ?_⟩
      rw [skipSpace_spaces hws (by decide), List.tail_cons,
        members_eq_ok_iff (enters_textMember _) hw hfuel, steps_puts_iff]
      exact ⟨rfl, by simp⟩

/-- A text is a table in one way only. -/
theorem TableText.unique {bs : Bytes} {ms ms' : List (String × String)} (h : TableText bs ms)
    (h' : TableText bs ms') : ms = ms' := by
  have hfuel : ms.length < ms.length + ms'.length + 1 := by omega
  have hfuel' : ms'.length < ms.length + ms'.length + 1 := by omega
  obtain ⟨rest, hread⟩ := h.members_eq_ok hfuel
  obtain ⟨rest', hread'⟩ := h'.members_eq_ok hfuel'
  rw [hread, Except.ok.injEq, Prod.mk.injEq] at hread'
  exact List.reverse_inj.mp hread'.1

/-- The table with members entered one after the other. -/
def entered (es : Entries) (ms : List (String × String)) : Entries :=
  ms.foldl (fun es m => es.set m.1 m.2) es

theorem tableMember_eq_textMember :
    tableMember = textMember fun (es : Entries) m => es.set m.1 m.2 := by
  rfl

theorem entries_eq_ok_iff {bs rest : Bytes} {es : Entries} :
    entries bs = .ok (es, rest) ↔ ∃ ws w ms, Spaces ws ∧ MembersText Quoted true w ms ∧
      bs = ws ++ ascii '{' :: (w ++ rest) ∧ es = entered [] ms := by
  constructor
  · intro h
    rw [entries] at h
    split at h
    · cases h
    · next b left hskip =>
      split at h
      · next hb =>
        subst hb
        obtain ⟨ws, hws, rfl⟩ := exists_spaces_of_skipSpace hskip
        rw [tableMember_eq_textMember] at h
        obtain ⟨w, ms, hw, rfl, hsteps⟩ := exists_membersText_of_members (derived_textMember _) h
        exact ⟨ws, w, ms, hws, hw, rfl, (steps_puts_iff _).mp hsteps⟩
      · cases h
  · rintro ⟨ws, w, ms, hws, hw, rfl, rfl⟩
    -- the fuel is the number of octets left, and every member has at least one
    have hfuel : ms.length < (w ++ rest).length + 1 := by
      have hlength := hw.length_lt
      rw [List.length_append]
      omega
    rw [entries, skipSpace_spaces hws (by decide), tableMember_eq_textMember]
    refine (members_eq_ok_iff (enters_textMember _) hw hfuel _ _ _ _).mpr ⟨rfl, ?_⟩
    exact (steps_puts_iff _).mpr rfl

/-- A text is read as a table exactly when the grammar derives it; its members enter the table one
after the other. -/
theorem decodeTable_eq_ok_iff {bs : Bytes} {es : Entries} :
    decodeTable bs = .ok es ↔ ∃ ms, TableText bs ms ∧ es = entered [] ms := by
  rw [decodeTable, whole_eq_ok_iff]
  constructor
  · rintro ⟨rest, hentries, hrest⟩
    obtain ⟨ws, w, ms, hws, hw, rfl, rfl⟩ := entries_eq_ok_iff.mp hentries
    exact ⟨ms, .mk hws hw hrest, rfl⟩
  · rintro ⟨ms, htable, rfl⟩
    cases htable with
    | @mk ws w ws' _ hws hw hws' =>
        exact ⟨ws', entries_eq_ok_iff.mpr ⟨ws, w, ms, hws, hw, rfl, rfl⟩, hws'⟩

end Relay.Json

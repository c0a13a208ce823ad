import Mathlib.Tactic.Choose
import Relay.Proofs.Json.Table
import Relay.Proofs.Json.Value

/-!
# Replies

`ObjectText bs ms` says that the octets `bs` are a JSON object whose members, in order and with
their repetitions, have the names and the values `ms`, each value as it is written.  `Spells ms r`
says what makes such an object stand for the reply `r`: each of the five members that a reply has
comes at most once, its value is that of the reply, and a member that is missing is one that the
reply has at its default.  Nothing is said of the order, of the other members, or of how a string is
escaped.  An object is read as a reply exactly when it stands for it.
-/

namespace Relay

namespace Json

open Bytes (ascii)

/-! ## Objects -/

/-- A JSON value, kept as it is written. -/
def Raw (v raw : Bytes) : Prop := JsonText .value v ∧ raw = v

/-- A JSON object, with space around it. -/
inductive ObjectText : Bytes → List (String × Bytes) → Prop where
  | mk {ws w ws' : Bytes} {ms : List (String × Bytes)} : Spaces ws → MembersText Raw true w ms →
      Spaces ws' → ObjectText (ws ++ ascii '{' :: (w ++ ws')) ms

/-- Where a value starts is settled: space is no part of it. -/
theorem JsonText.eq_of_append_eq {v v' ws ws' : Bytes} (hv : JsonText .value v)
    (hv' : JsonText .value v') (hws : Spaces ws) (hws' : Spaces ws') (h : ws ++ v = ws' ++ v') :
    v = v' := by
  obtain ⟨b, t, rfl, hb, _⟩ := hv.exists_cons
  obtain ⟨b', t', rfl, hb', _⟩ := hv'.exists_cons
  have hskip := congrArg skipSpace h
  rwa [skipSpace_spaces hws hb, skipSpace_spaces hws' hb'] at hskip

/-! ## Values that are wanted -/

/-- The octets of a truth value. -/
inductive TruthText : Bytes → Bool → Prop where
  | yes : TruthText (ascii 't' :: trueTail) true
  | no : TruthText (ascii 'f' :: falseTail) false

/-- The octets of a text that may be missing. -/
inductive OptionalText : Bytes → Option String → Prop where
  | null : OptionalText (ascii 'n' :: nullTail) none
  | text {q : Bytes} {s : String} : Quoted q s → OptionalText q (some s)

/-- The reader takes exactly the values that `V` tells, which are JSON and end by themselves,
whatever follows. -/
structure Reads {α : Type} (V : Bytes → α → Prop) (read : Bytes → Except Fault (α × Bytes)) :
    Prop where
  eq_ok_iff : ∀ {bs rest : Bytes} {a : α},
    read bs = .ok (a, rest) ↔ ∃ ws v, Spaces ws ∧ V v a ∧ bs = ws ++ (v ++ rest)
  jsonText : ∀ {v : Bytes} {a : α}, V v a → JsonText .value v
  skipped : ∀ {v : Bytes} {a : α}, V v a →
    ∀ (fuel : Nat) (rest : Bytes), skipValue (fuel + 1) (v ++ rest) = .ok rest

/-- A JSON value is read by what it is as a whole. -/
theorem Reads.of_jsonText {α : Type} {V : Bytes → α → Prop}
    {read : Bytes → Except Fault (α × Bytes)} (h : Reads V read) {ws v rest : Bytes}
    (hws : Spaces ws) (hv : JsonText .value v) (hstops : Stops rest) (a : α) (rest' : Bytes) :
    read (ws ++ (v ++ rest)) = .ok (a, rest') ↔ rest' = rest ∧ V v a := by
  constructor
  · intro hread
    obtain ⟨ws', v', hws', hv', hsplit⟩ := h.eq_ok_iff.mp hread
    -- both ways to split the text are what skipping does with it
    have hskip : skip (ws ++ (v ++ rest)) = .ok rest := skip_of_jsonText hv hws hstops
    have hskip' : skip (ws' ++ (v' ++ rest')) = .ok rest' := by
      rw [skip, skipValue_spaces hws']
      exact h.skipped hv' _ rest'
    rw [hsplit, hskip', Except.ok.injEq] at hskip
    subst hskip
    rw [← List.append_assoc, ← List.append_assoc] at hsplit
    have hvalue : v = v' :=
      hv.eq_of_append_eq (h.jsonText hv') hws hws' (List.append_cancel_right hsplit)
    exact ⟨rfl, hvalue ▸ hv'⟩
  · rintro ⟨rfl, ha⟩
    exact h.eq_ok_iff.mpr ⟨ws, v, hws, ha, rfl⟩

theorem boolean_eq_ok_iff {bs rest : Bytes} {b : Bool} :
    boolean bs = .ok (b, rest) ↔ ∃ ws v, Spaces ws ∧ TruthText v b ∧ bs = ws ++ (v ++ rest) := by
  constructor
  · intro h
    rw [boolean] at h
    split at h
    · cases h
    · next c left hskip =>
      obtain ⟨ws, hws, rfl⟩ := exists_spaces_of_skipSpace hskip
      split at h
      · next hc =>
        obtain ⟨left', hword, hpair⟩ := map_eq_ok.mp h
        cases hpair
        rw [hc, word_eq_ok_iff.mp hword]
        exact ⟨ws, _, hws, .yes, rfl⟩
      split at h
      · next hc =>
        obtain ⟨left', hword, hpair⟩ := map_eq_ok.mp h
        cases hpair
        rw [hc, word_eq_ok_iff.mp hword]
        exact ⟨ws, _, hws, .no, rfl⟩
      · cases h
  · rintro ⟨ws, v, hws, hv, rfl⟩
    cases hv with
    | yes =>
        rw [boolean, List.cons_append, skipSpace_spaces hws (by decide)]
        rfl
    | no =>
        rw [boolean, List.cons_append, skipSpace_spaces hws (by decide)]
        rfl

theorem reads_boolean : Reads TruthText boolean where
  eq_ok_iff := boolean_eq_ok_iff
  jsonText h := by
    cases h with
    | yes => exact .yes
    | no => exact .no
  skipped h fuel rest := by
    cases h with
    | yes => exact skipValue_yes fuel rest
    | no => exact skipValue_no fuel rest

theorem optionalText_eq_ok_iff {bs rest : Bytes} {s : Option String} :
    optionalText bs = .ok (s, rest) ↔
      ∃ ws v, Spaces ws ∧ OptionalText v s ∧ bs = ws ++ (v ++ rest) := by
  constructor
  · intro h
    rw [optionalText] at h
    split at h
    · cases h
    · next c left hskip =>
      obtain ⟨ws, hws, rfl⟩ := exists_spaces_of_skipSpace hskip
      split at h
      · next hc =>
        obtain ⟨left', hword, hpair⟩ := map_eq_ok.mp h
        cases hpair
        rw [hc, word_eq_ok_iff.mp hword]
        exact ⟨ws, _, hws, .null, rfl⟩
      · obtain ⟨⟨t, left'⟩, htext, hpair⟩ := map_eq_ok.mp h
        cases hpair
        obtain ⟨ws', q, hws', hq, hsplit⟩ := text_eq_ok_iff.mp htext
        refine ⟨ws ++ ws', q, ?_, .text hq, ?_⟩
        · intro b hb
          exact (List.mem_append.mp hb).elim (hws b) (hws' b)
        · rw [hsplit]
          simp
  · rintro ⟨ws, v, hws, hv, rfl⟩
    cases hv with
    | null =>
        rw [optionalText, List.cons_append, skipSpace_spaces hws (by decide)]
        rfl
    | @text _ t hq =>
        have htext : text (v ++ rest) = .ok (t, rest) := text_eq_ok_iff.mpr ⟨[], v, .nil, hq, rfl⟩
        have hquote : ascii '"' ≠ ascii 'n' := by decide
        cases hq with
        | mk hw ht =>
            rw [List.cons_append] at htext
            rw [optionalText, List.cons_append, skipSpace_spaces hws (by decide)]
            simp only [if_neg hquote, htext]
            rfl

theorem reads_optionalText : Reads OptionalText optionalText where
  eq_ok_iff := optionalText_eq_ok_iff
  jsonText h := by
    cases h with
    | null => exact .null
    | text hq =>
        cases hq with
        | mk hw _ => exact .string hw.escaped
  skipped h fuel rest := by
    cases h with
    | null => exact skipValue_null fuel rest
    | text hq =>
        cases hq with
        | @mk w o _ hw _ =>
            rw [List.cons_append, skipValue_quote, List.append_assoc]
            exact skipString_of_escaped hw.escaped rest

/-! ## One member -/

section Member

variable {α : Type} {V : Bytes → α → Prop} {read : Bytes → Except Fault (α × Bytes)}

/-- A member fills the place of its name, which has to be empty, and leaves the others alone. -/
inductive Fills (V : Bytes → α → Prop) (name : String) :
    Option α → String × Bytes → Option α → Prop where
  | value {raw : Bytes} {a : α} : V raw a → Fills V name none (name, raw) (some a)
  | other {held : Option α} {e : String × Bytes} : e.1 ≠ name → Fills V name held e held

theorem fills_self_iff {name : String} {raw : Bytes} {held held' : Option α} :
    Fills V name held (name, raw) held' ↔ held = none ∧ ∃ a, V raw a ∧ held' = some a := by
  constructor
  · intro h
    cases h with
    | value ha => exact ⟨rfl, _, ha, rfl⟩
    | other hne => exact absurd rfl hne
  · rintro ⟨rfl, a, ha, rfl⟩
    exact .value ha

theorem fills_of_ne_iff {name : String} {e : String × Bytes} (hne : e.1 ≠ name)
    {held held' : Option α} : Fills V name held e held' ↔ held' = held := by
  constructor
  · intro h
    cases h with
    | value _ => exact absurd rfl hne
    | other _ => rfl
  · rintro rfl
    exact .other hne

/-- What the object says of a member: it comes at most once, with this value, and with the value
`missing` if it does not come at all. -/
structure Gives (V : Bytes → α → Prop) (missing : α) (name : String) (ms : List (String × Bytes))
    (a : α) : Prop where
  once : (ms.map Prod.fst).count name ≤ 1
  value : ∀ raw, (name, raw) ∈ ms → V raw a
  default : name ∉ ms.map Prod.fst → a = missing

/-- A place that is filled stays as it is, and its name does not come again. -/
theorem steps_fills_some_iff {name : String} {ms : List (String × Bytes)} {a : α}
    {held : Option α} :
    Steps (Fills V name) (some a) ms held ↔ held = some a ∧ name ∉ ms.map Prod.fst := by
  induction ms with
  | nil => simp [steps_nil_iff]
  | cons e ms ih =>
      rw [steps_cons_iff]
      by_cases he : e.1 = name
      · obtain ⟨n, raw⟩ := e
        obtain rfl : n = name := he
        simp [fills_self_iff]
      · simp only [fills_of_ne_iff he, exists_eq_left, ih, List.map_cons, List.mem_cons, not_or]
        rw [and_iff_right (Ne.symm he)]

theorem gives_nil (missing : α) (name : String) : Gives V missing name [] missing :=
  ⟨by simp, by simp, fun _ => rfl⟩

theorem gives_cons_self_iff {missing a : α} {name : String} {raw : Bytes}
    {ms : List (String × Bytes)} :
    Gives V missing name ((name, raw) :: ms) a ↔ V raw a ∧ name ∉ ms.map Prod.fst := by
  constructor
  · intro h
    refine ⟨h.value raw List.mem_cons_self, fun hmem => ?_⟩
    have honce := h.once
    rw [List.map_cons, List.count_cons_self] at honce
    have hpos := List.count_pos_iff.mpr hmem
    omega
  · rintro ⟨ha, hnot⟩
    refine ⟨?_, fun raw' hmem => ?_, fun hmissing => ?_⟩
    · have hzero := List.count_eq_zero_of_not_mem hnot
      rw [List.map_cons, List.count_cons_self]
      omega
    · rcases List.mem_cons.mp hmem with heq | hmem
      · cases heq
        exact ha
      · exact absurd (List.mem_map_of_mem hmem) hnot
    · exact absurd List.mem_cons_self hmissing

theorem gives_cons_of_ne_iff {missing a : α} {name : String} {e : String × Bytes}
    (hne : e.1 ≠ name) {ms : List (String × Bytes)} :
    Gives V missing name (e :: ms) a ↔ Gives V missing name ms a := by
  have hcount : ((e :: ms).map Prod.fst).count name = (ms.map Prod.fst).count name := by
    rw [List.map_cons, List.count_cons_of_ne hne]
  have hmem : ∀ raw, (name, raw) ∈ e :: ms ↔ (name, raw) ∈ ms := by
    intro raw
    rw [List.mem_cons, or_iff_right]
    rintro rfl
    exact hne rfl
  have hname : name ∉ (e :: ms).map Prod.fst ↔ name ∉ ms.map Prod.fst := by
    rw [List.map_cons, List.mem_cons, or_iff_right (Ne.symm hne)]
  constructor
  · rintro ⟨honce, hvalue, hdefault⟩
    exact ⟨hcount ▸ honce, fun raw h => hvalue raw ((hmem raw).mpr h), fun h =>
      hdefault (hname.mpr h)⟩
  · rintro ⟨honce, hvalue, hdefault⟩
    exact ⟨hcount.symm ▸ honce, fun raw h => hvalue raw ((hmem raw).mp h), fun h =>
      hdefault (hname.mp h)⟩

/-- Filling an empty place member by member is what the object says as a whole. -/
theorem gives_iff_steps {missing a : α} {name : String} {ms : List (String × Bytes)} :
    Gives V missing name ms a ↔
      ∃ held, Steps (Fills V name) none ms held ∧ held.getD missing = a := by
  induction ms with
  | nil =>
      simp only [steps_nil_iff, exists_eq_left, Option.getD_none]
      constructor
      · intro h
        exact (h.default (by simp)).symm
      · rintro rfl
        exact gives_nil missing name
  | cons e ms ih =>
      by_cases he : e.1 = name
      · obtain ⟨n, raw⟩ := e
        obtain rfl : n = name := he
        rw [gives_cons_self_iff]
        constructor
        · rintro ⟨ha, hnot⟩
          refine ⟨some a, steps_cons_iff.mpr ⟨some a, .value ha, ?_⟩, rfl⟩
          exact steps_fills_some_iff.mpr ⟨rfl, hnot⟩
        · rintro ⟨held, hsteps, hheld⟩
          obtain ⟨held₁, hfills, hsteps⟩ := steps_cons_iff.mp hsteps
          obtain ⟨_, a', ha', rfl⟩ := fills_self_iff.mp hfills
          obtain ⟨rfl, hnot⟩ := steps_fills_some_iff.mp hsteps
          obtain rfl : a' = a := hheld
          exact ⟨ha', hnot⟩
      · rw [gives_cons_of_ne_iff he, ih]
        simp only [steps_cons_iff, fills_of_ne_iff he, exists_eq_left]

end Member

/-! ## The five members -/

/-- The members that a reply has. -/
inductive Slot where
  | success
  | output
  | error
  | timedOut
  | truncated

namespace Slot

/-- What the member holds. -/
def Value : Slot → Type
  | success | timedOut | truncated => Bool
  | output | error => Option String

/-- The name of the member. -/
def name : Slot → String
  | success => "success"
  | output => "output"
  | error => "error"
  | timedOut => "timedOut"
  | truncated => "truncated"

/-- What a member that is missing stands for. -/
def missing : (f : Slot) → f.Value
  | success | timedOut | truncated => false
  | output | error => none

/-- The octets of the member's values. -/
def Spelled : (f : Slot) → Bytes → f.Value → Prop
  | success | timedOut | truncated => TruthText
  | output | error => OptionalText

/-- The reader of the member's values. -/
def read : (f : Slot) → Bytes → Except Fault (f.Value × Bytes)
  | success | timedOut | truncated => boolean
  | output | error => optionalText

theorem reads (f : Slot) : Reads f.Spelled f.read := by
  cases f with
  | success | timedOut | truncated => exact reads_boolean
  | output | error => exact reads_optionalText

theorem eq_of_name_eq {f g : Slot} (h : f.name = g.name) : f = g := by
  cases f <;> cases g <;> first | rfl | exact absurd h (by decide)

end Slot

end Json

/-- A member of the reply. -/
def Reply.get (r : Reply) : (f : Json.Slot) → f.Value
  | .success => r.success
  | .output => r.output
  | .error => r.error
  | .timedOut => r.timedOut
  | .truncated => r.truncated

theorem Reply.eq_of_get {r r' : Reply} (h : ∀ f, r.get f = r'.get f) : r = r' := by
  cases r
  cases r'
  rw [Reply.mk.injEq]
  exact ⟨h .success, h .output, h .error, h .timedOut, h .truncated⟩

namespace Json

open Bytes (ascii)

namespace Draft

/-- What has been read of a member. -/
def get (d : Draft) : (f : Slot) → Option f.Value
  | .success => d.success
  | .output => d.output
  | .error => d.error
  | .timedOut => d.timedOut
  | .truncated => d.truncated

/-- The draft with a member read. -/
def put (d : Draft) : (f : Slot) → f.Value → Draft
  | .success, v => { d with success := some v }
  | .output, v => { d with output := some v }
  | .error, v => { d with error := some v }
  | .timedOut, v => { d with timedOut := some v }
  | .truncated, v => { d with truncated := some v }

theorem eq_of_get {d d' : Draft} (h : ∀ f, d.get f = d'.get f) : d = d' := by
  cases d
  cases d'
  rw [Draft.mk.injEq]
  exact ⟨h .success, h .output, h .error, h .timedOut, h .truncated⟩

theorem exists_get (g : (f : Slot) → Option f.Value) : ∃ d : Draft, ∀ f, d.get f = g f := by
  refine ⟨⟨g .success, g .output, g .error, g .timedOut, g .truncated⟩, fun f => ?_⟩
  cases f <;> rfl

theorem get_blank (f : Slot) : blank.get f = none := by
  cases f <;> rfl

theorem get_reply (d : Draft) (f : Slot) : d.reply.get f = (d.get f).getD f.missing := by
  cases f <;> rfl

theorem get_put_self (d : Draft) (f : Slot) (v : f.Value) : (d.put f v).get f = some v := by
  cases f <;> rfl

theorem get_put_of_ne (d : Draft) {f g : Slot} (h : g ≠ f) (v : f.Value) :
    (d.put f v).get g = d.get g := by
  cases f <;> cases g <;> first | rfl | exact absurd rfl h

end Draft

theorem replyMember_name (d : Draft) (f : Slot) (bs : Bytes) :
    replyMember d f.name bs =
      (once (d.get f) f.read bs).map fun (v, rest) => (d.put f v, rest) := by
  cases f <;> rfl

theorem replyMember_of_ne (d : Draft) {name : String} (h : ∀ f : Slot, name ≠ f.name)
    (bs : Bytes) :
    replyMember d name bs = ((colon bs).bind skip).map fun rest => (d, rest) := by
  have hsuccess : name ≠ "success" := h .success
  have houtput : name ≠ "output" := h .output
  have herror : name ≠ "error" := h .error
  have htimedOut : name ≠ "timedOut" := h .timedOut
  have htruncated : name ≠ "truncated" := h .truncated
  rw [replyMember, if_neg hsuccess, if_neg houtput, if_neg herror, if_neg htimedOut,
    if_neg htruncated]

/-- A member fills the place of its name. -/
def Enrols (d : Draft) (e : String × Bytes) (d' : Draft) : Prop :=
  ∀ f : Slot, Fills f.Spelled f.name (d.get f) e (d'.get f)

theorem enrols_name_iff {d d' : Draft} {f : Slot} {raw : Bytes} :
    Enrols d (f.name, raw) d' ↔ d.get f = none ∧ ∃ a, f.Spelled raw a ∧ d' = d.put f a := by
  constructor
  · intro h
    obtain ⟨hnone, a, ha, hself⟩ := fills_self_iff.mp (h f)
    refine ⟨hnone, a, ha, Draft.eq_of_get fun g => ?_⟩
    by_cases hg : g = f
    · subst hg
      rw [hself, Draft.get_put_self]
    · have hname : f.name ≠ g.name := fun heq => hg (Slot.eq_of_name_eq heq).symm
      rw [Draft.get_put_of_ne d hg, (fills_of_ne_iff hname).mp (h g)]
  · rintro ⟨hnone, a, ha, rfl⟩ g
    by_cases hg : g = f
    · subst hg
      exact fills_self_iff.mpr ⟨hnone, a, ha, Draft.get_put_self d g a⟩
    · have hname : f.name ≠ g.name := fun heq => hg (Slot.eq_of_name_eq heq).symm
      exact (fills_of_ne_iff hname).mpr (Draft.get_put_of_ne d hg a)

theorem enrols_of_ne_iff {d d' : Draft} {e : String × Bytes} (h : ∀ f : Slot, e.1 ≠ f.name) :
    Enrols d e d' ↔ d' = d := by
  constructor
  · intro hfills
    exact Draft.eq_of_get fun f => (fills_of_ne_iff (h f)).mp (hfills f)
  · rintro rfl f
    exact .other (h f)

/-- The places are filled side by side. -/
theorem steps_enrols_iff {d d' : Draft} {ms : List (String × Bytes)} :
    Steps Enrols d ms d' ↔
      ∀ f : Slot, Steps (Fills f.Spelled f.name) (d.get f) ms (d'.get f) := by
  induction ms generalizing d with
  | nil =>
      simp only [steps_nil_iff]
      constructor
      · rintro rfl f
        rfl
      · exact Draft.eq_of_get
  | cons e ms ih =>
      simp only [steps_cons_iff, ih]
      constructor
      · rintro ⟨d₁, hfills, hsteps⟩ f
        exact ⟨d₁.get f, hfills f, hsteps f⟩
      · intro h
        choose g hfills hsteps using h
        obtain ⟨d₁, hd₁⟩ := Draft.exists_get g
        refine ⟨d₁, fun f => ?_, fun f => ?_⟩
        · rw [hd₁ f]
          exact hfills f
        · rw [hd₁ f]
          exact hsteps f

theorem once_eq_ok_iff {α : Type} {held : Option α} {read : Bytes → Except Fault (α × Bytes)}
    {bs : Bytes} {r : α × Bytes} :
    once held read bs = .ok r ↔ held = none ∧ (colon bs).bind read = .ok r := by
  cases held <;> simp [once]

theorem colon_spaces {ws : Bytes} (hws : Spaces ws) (rest : Bytes) :
    colon (ws ++ ascii ':' :: rest) = .ok rest :=
  colon_eq_ok_iff.mpr ⟨ws, hws, rfl⟩

theorem enters_replyMember : Enters Raw replyMember Enrols := by
  rintro ws ws' v rest raw hws hws' ⟨hv, rfl⟩ hstops d name d' rest'
  have hcolon := colon_spaces hws (ws' ++ (raw ++ rest))
  rw [List.append_assoc, List.cons_append, List.append_assoc]
  by_cases hname : ∃ f : Slot, name = f.name
  · obtain ⟨f, rfl⟩ := hname
    rw [replyMember_name, map_eq_ok, enrols_name_iff]
    simp only [once_eq_ok_iff, hcolon, Except.bind]
    constructor
    · rintro ⟨⟨a, left⟩, ⟨hnone, hread⟩, hpair⟩
      obtain ⟨rfl, ha⟩ := (f.reads.of_jsonText hws' hv hstops a left).mp hread
      cases hpair
      exact ⟨rfl, hnone, a, ha, rfl⟩
    · rintro ⟨rfl, hnone, a, ha, rfl⟩
      refine ⟨(a, rest'), ⟨hnone, ?_⟩, rfl⟩
      exact (f.reads.of_jsonText hws' hv hstops a rest').mpr ⟨rfl, ha⟩
  · have hne : ∀ f : Slot, name ≠ f.name := fun f hf => hname ⟨f, hf⟩
    rw [replyMember_of_ne d hne, hcolon, Except.bind, skip_of_jsonText hv hws' hstops,
      enrols_of_ne_iff hne, Except.map, Except.ok.injEq, Prod.mk.injEq, and_comm, eq_comm,
      eq_comm (a := d)]

theorem derived_replyMember : Derived Raw replyMember Enrols := by
  intro d name bs d' rest h
  by_cases hname : ∃ f : Slot, name = f.name
  · obtain ⟨f, rfl⟩ := hname
    rw [replyMember_name] at h
    obtain ⟨⟨a, left⟩, honce, hpair⟩ := map_eq_ok.mp h
    cases hpair
    obtain ⟨hnone, hbind⟩ := once_eq_ok_iff.mp honce
    obtain ⟨left, hcolon, hread⟩ := bind_eq_ok.mp hbind
    obtain ⟨ws, hws, rfl⟩ := colon_eq_ok_iff.mp hcolon
    obtain ⟨ws', v, hws', hv, rfl⟩ := f.reads.eq_ok_iff.mp hread
    refine ⟨ws, ws', v, v, hws, hws', ⟨f.reads.jsonText hv, rfl⟩, by simp, ?_⟩
    exact enrols_name_iff.mpr ⟨hnone, a, hv, rfl⟩
  · have hne : ∀ f : Slot, name ≠ f.name := fun f hf => hname ⟨f, hf⟩
    rw [replyMember_of_ne d hne] at h
    obtain ⟨left, hbind, hpair⟩ := map_eq_ok.mp h
    cases hpair
    obtain ⟨left, hcolon, hskip⟩ := bind_eq_ok.mp hbind
    obtain ⟨ws, hws, rfl⟩ := colon_eq_ok_iff.mp hcolon
    obtain ⟨ws', v, hws', hv, rfl⟩ := exists_jsonText_of_skip hskip
    exact ⟨ws, ws', v, v, hws, hws', ⟨hv, rfl⟩, by simp, (enrols_of_ne_iff hne).mpr rfl⟩

/-! ## Whole replies -/

/-- The members of an object stand for the reply. -/
def Spells (ms : List (String × Bytes)) (r : Reply) : Prop :=
  ∀ f : Slot, Gives f.Spelled f.missing f.name ms (r.get f)

theorem spells_iff_steps {ms : List (String × Bytes)} {r : Reply} :
    Spells ms r ↔ ∃ d, Steps Enrols .blank ms d ∧ d.reply = r := by
  constructor
  · intro h
    choose g hsteps hg using fun f => gives_iff_steps.mp (h f)
    obtain ⟨d, hd⟩ := Draft.exists_get g
    refine ⟨d, steps_enrols_iff.mpr fun f => ?_, Reply.eq_of_get fun f => ?_⟩
    · rw [Draft.get_blank, hd f]
      exact hsteps f
    · rw [Draft.get_reply, hd f, hg f]
  · rintro ⟨d, hsteps, rfl⟩ f
    have hf := steps_enrols_iff.mp hsteps f
    rw [Draft.get_blank] at hf
    exact gives_iff_steps.mpr ⟨d.get f, hf, (Draft.get_reply d f).symm⟩

theorem reply_of_brace {bs left : Bytes} (h : skipSpace bs = ascii '{' :: left) :
    reply bs = (members replyMember (left.length + 1) true .blank left).map
      fun (d, rest) => (d.reply, rest) := by
  rw [reply, h]
  rfl

/-- An object is read as the reply that it stands for. -/
theorem ObjectText.decodeReply_eq_ok_iff {bs : Bytes} {ms : List (String × Bytes)}
    (h : ObjectText bs ms) (r : Reply) : decodeReply bs = .ok r ↔ Spells ms r := by
  cases h with
  | @mk ws w ws' _ hws hw hws' =>
      have hfuel : ms.length < (w ++ ws').length + 1 := by
        have hlength := hw.length_lt
        rw [List.length_append]
        omega
      rw [decodeReply, whole_eq_ok_iff, spells_iff_steps,
        reply_of_brace (skipSpace_spaces hws (by decide) _)]
      simp only [map_eq_ok]
      constructor
      · rintro ⟨rest, ⟨⟨d, left⟩, hmembers, hpair⟩, _⟩
        cases hpair
        obtain ⟨_, hsteps⟩ := (members_eq_ok_iff enters_replyMember hw hfuel _ _ _ _).mp hmembers
        exact ⟨d, hsteps, rfl⟩
      · rintro ⟨d, hsteps, rfl⟩
        refine ⟨ws', ⟨(d, ws'), ?_, rfl⟩, hws'⟩
        exact (members_eq_ok_iff enters_replyMember hw hfuel _ _ _ _).mpr ⟨rfl, hsteps⟩

/-- What starts with a brace and is read is an object. -/
theorem exists_objectText {bs left : Bytes} (hbrace : skipSpace bs = ascii '{' :: left) {r : Reply}
    (h : decodeReply bs = .ok r) : ∃ ms, ObjectText bs ms := by
  obtain ⟨rest, hreply, hrest⟩ := whole_eq_ok_iff.mp h
  rw [reply_of_brace hbrace] at hreply
  obtain ⟨⟨d, rest'⟩, hmembers, hpair⟩ := map_eq_ok.mp hreply
  cases hpair
  obtain ⟨w, ms, hw, rfl, _⟩ := exists_membersText_of_members derived_replyMember hmembers
  obtain ⟨ws, hws, rfl⟩ := exists_spaces_of_skipSpace hbrace
  exact ⟨ms, .mk hws hw hrest⟩

/-! ## Written replies -/

/-- The octets of a member as it is written without space. -/
def compactOctets (m : String × String) : Bytes :=
  Utf8.encode (quoted m.1) ++ ([] ++ ascii ':' :: ([] ++ Utf8.encode m.2))

theorem encode_compactMember (m : String × String) :
    Utf8.encode (quoted m.1 ++ ":" ++ m.2) = compactOctets m := by
  have hcolon : Utf8.encode ":" = [ascii ':'] := by decide
  rw [Utf8.encode_append, Utf8.encode_append, hcolon, compactOctets]
  simp

theorem memberText_compactOctets {m : String × String}
    (h : JsonText .value (Utf8.encode m.2)) :
    MemberText Raw (compactOctets m) (m.1, Utf8.encode m.2) :=
  .mk (quoted_quoted m.1) .nil .nil ⟨h, rfl⟩

/-- The members after the first, each behind a comma, and the brace that closes the object. -/
theorem membersText_compact {ms : List (String × String)}
    (h : ∀ m ∈ ms, JsonText .value (Utf8.encode m.2)) :
    MembersText Raw false
      (ms.flatMap (fun m => ascii ',' :: compactOctets m) ++ [ascii '}'])
      (ms.map fun m => (m.1, Utf8.encode m.2)) := by
  induction ms with
  | nil => exact .close .nil
  | cons m ms ih =>
      have hm := memberText_compactOctets (h m List.mem_cons_self)
      have hmore := MembersText.more .nil .nil hm (ih fun m' hm' => h m' (List.mem_cons_of_mem m hm'))
      simpa using hmore

/-- What is written of JSON values is an object with them, in their order. -/
theorem objectText_compact {ms : List (String × String)}
    (h : ∀ m ∈ ms, JsonText .value (Utf8.encode m.2)) :
    ObjectText (Utf8.encode (compact ms)) (ms.map fun m => (m.1, Utf8.encode m.2)) := by
  cases ms with
  | nil =>
      have hempty : Utf8.encode (compact []) = [] ++ ascii '{' :: (([] ++ [ascii '}']) ++ []) := by
        decide
      rw [hempty]
      exact .mk .nil (.close .nil) .nil
  | cons m ms =>
      have hopen : Utf8.encode "\x7b" = [ascii '{'] := by decide
      have hcomma : Utf8.encode "," = [ascii ','] := by decide
      have hclose : Utf8.encode "\x7d" = [ascii '}'] := by decide
      have hm := memberText_compactOctets (h m List.mem_cons_self)
      have hmore := membersText_compact fun m' hm' => h m' (List.mem_cons_of_mem m hm')
      have hobject := ObjectText.mk .nil (.first .nil hm hmore) .nil
      rw [compact, Utf8.encode_append, Utf8.encode_append, List.map_cons, encode_intercalate,
        encode_compactMember, hopen, hcomma, hclose, List.flatMap_map]
      simpa [encode_compactMember] using hobject

theorem spelled_truth (b : Bool) : TruthText (Utf8.encode (truth b)) b := by
  cases b with
  | false => exact (show Utf8.encode (truth false) = ascii 'f' :: falseTail by decide) ▸ .no
  | true => exact (show Utf8.encode (truth true) = ascii 't' :: trueTail by decide) ▸ .yes

theorem spelled_optionalQuoted (s : Option String) :
    OptionalText (Utf8.encode (optionalQuoted s)) s := by
  cases s with
  | none => exact (show Utf8.encode (optionalQuoted none) = ascii 'n' :: nullTail by decide) ▸ .null
  | some t => exact .text (quoted_quoted t)

namespace Slot

/-- What is written for the member. -/
def write : (f : Slot) → f.Value → String
  | success | timedOut | truncated => truth
  | output | error => optionalQuoted

/-- The members in the order in which they are written. -/
def all : List Slot := [success, output, error, timedOut, truncated]

theorem mem_all (f : Slot) : f ∈ all := by
  cases f <;> simp [all]

theorem spelled_write (f : Slot) (a : f.Value) : f.Spelled (Utf8.encode (f.write a)) a := by
  cases f with
  | success | timedOut | truncated => exact spelled_truth a
  | output | error => exact spelled_optionalQuoted a

end Slot

/-- The members that are written for a reply. -/
def written (r : Reply) : List (String × String) :=
  Slot.all.map fun f => (f.name, f.write (r.get f))

theorem replyBody_eq_compact (r : Reply) : replyBody r = compact (written r) := by
  rfl

theorem objectText_replyBody (r : Reply) :
    ObjectText (Utf8.encode (replyBody r)) ((written r).map fun m => (m.1, Utf8.encode m.2)) := by
  rw [replyBody_eq_compact]
  apply objectText_compact
  intro m hm
  obtain ⟨f, _, rfl⟩ := List.mem_map.mp hm
  exact f.reads.jsonText (f.spelled_write (r.get f))

theorem spells_written (r : Reply) :
    Spells ((written r).map fun m => (m.1, Utf8.encode m.2)) r := by
  have hnames : ((written r).map fun m => (m.1, Utf8.encode m.2)).map Prod.fst =
      Slot.all.map Slot.name := by
    rw [written, List.map_map, List.map_map]
    rfl
  intro f
  refine ⟨?_, fun raw hmem => ?_, fun hmissing => ?_⟩
  · rw [hnames]
    cases f <;> decide
  · obtain ⟨m, hm, heq⟩ := List.mem_map.mp hmem
    obtain ⟨g, _, rfl⟩ := List.mem_map.mp hm
    obtain rfl : g = f := Slot.eq_of_name_eq (congrArg Prod.fst heq)
    obtain rfl : _ = raw := congrArg Prod.snd heq
    exact g.spelled_write (r.get g)
  · rw [hnames] at hmissing
    exact absurd (List.mem_map_of_mem f.mem_all) hmissing

end Json

open Json

/-- An object is read as a reply exactly when it stands for it, whatever the order of its members,
the defaults it leaves out, the escapes in its strings and the members that a reply does not have.
One of the five members that comes twice spoils it.  What starts with a brace and is read is an
object, and what is written for a reply is read back as it was. -/
theorem reply_read_as_spelled (r : Reply) :
    (∀ bs ms, ObjectText bs ms → (decodeReply bs = .ok r ↔ Spells ms r)) ∧
    (∀ bs ms, ObjectText bs ms → ∀ f : Slot, 2 ≤ (ms.map Prod.fst).count f.name →
      ∃ fault, decodeReply bs = .error fault) ∧
    (∀ bs left, skipSpace bs = Bytes.ascii '{' :: left → decodeReply bs = .ok r →
      ∃ ms, ObjectText bs ms) ∧
    decodeReply (Utf8.encode (replyBody r)) = .ok r := by
  refine ⟨fun bs ms h => h.decodeReply_eq_ok_iff r, fun bs ms h f htwice => ?_,
    fun bs left hbrace h => exists_objectText hbrace h, ?_⟩
  · cases hread : decodeReply bs with
    | error fault => exact ⟨fault, rfl⟩
    | ok r' =>
        have honce := ((h.decodeReply_eq_ok_iff r').mp hread f).once
        omega
  · exact ((objectText_replyBody r).decodeReply_eq_ok_iff r).mpr (spells_written r)

/-- An unknown member with values inside it, a known one out of order and an escaped one, and
`error` twice. -/
theorem reply_read_as_spelled_mixed :
    decodeReply (Utf8.encode (compact [("trace", "[\x7b\x7d,-0.5]"), ("timedOut", "true"),
      ("output", "\"\\n\"")])) = .ok { Reply.blank with output := some "\n", timedOut := true } ∧
    ∃ fault, decodeReply (Utf8.encode (compact [("error", "null"), ("error", "null")])) =
      .error fault := by
  have htrace : JsonText .value (Utf8.encode "[\x7b\x7d,-0.5]") := by
    have hfraction : FractionText [Bytes.ascii '.', Bytes.ascii '5'] :=
      .some (by decide) (by simp [AllDigits])
    have hvalue : JsonText .value _ := .full (.element .nil (.empty (k := .object) .nil)
      (.comma .nil (.element .nil (.negative (.mk .zero hfraction .none)) (.close .nil))))
    exact hvalue
  have htrue : TruthText (Utf8.encode "true") true := spelled_truth true
  have hline : OptionalText (Utf8.encode "\"\\n\"") (some "\n") := spelled_optionalQuoted (some "\n")
  have hnull : OptionalText (Utf8.encode "null") none := spelled_optionalQuoted none
  have hmixed := @objectText_compact
    [("trace", "[\x7b\x7d,-0.5]"), ("timedOut", "true"), ("output", "\"\\n\"")] (by
      simp only [List.forall_mem_cons]
      exact ⟨htrace, reads_boolean.jsonText htrue, reads_optionalText.jsonText hline, nofun⟩)
  have htwice := @objectText_compact [("error", "null"), ("error", "null")] (by
    simp only [List.forall_mem_cons]
    exact ⟨reads_optionalText.jsonText hnull, reads_optionalText.jsonText hnull, nofun⟩)
  refine ⟨((reply_read_as_spelled _).1 _ _ hmixed).mpr fun f => ?_,
    (reply_read_as_spelled .blank).2.1 _ _ htwice .error (by decide)⟩
  cases f with
  | success | error | truncated =>
      refine (gives_cons_of_ne_iff (by decide)).mpr ((gives_cons_of_ne_iff (by decide)).mpr ?_)
      exact (gives_cons_of_ne_iff (by decide)).mpr (gives_nil _ _)
  | timedOut =>
      refine (gives_cons_of_ne_iff (by decide)).mpr (gives_cons_self_iff.mpr ⟨htrue, ?_⟩)
      decide
  | output =>
      refine (gives_cons_of_ne_iff (by decide)).mpr ((gives_cons_of_ne_iff (by decide)).mpr ?_)
      exact gives_cons_self_iff.mpr ⟨hline, by decide⟩

end Relay

import Mathlib.Data.List.Basic
import Relay.Shell.Parse
import Relay.Tool.Command

/-!
# The words of a command line

How a shell reads a line that is typed into it, as far as quotes go: `words?` gives the words,
unless the line is not complete, has an operator in it or is to be expanded first.  A character is
read by the place that it stands at (`step`), and either kept or left out; nothing is ever put in,
so the words are a subsequence of the line (`flatten_readWords`).

A text in double quotes is read as it is exactly if it is `inert`.  For a whole line this is a
matter of counting: a reader that leaves out no backslash, single quote or hash mark reads every
double quote as a quote, and then no word has one in it (`not_mem_of_readWords`).
-/

namespace Relay.Quoting

open Shell (backquote)

/-! ## Reading a line -/

/-- Where a reader of a line stands. -/
inductive Place where
  /-- Outside quotes, in a word or between two. -/
  | plain (inWord : Bool)
  /-- After a backslash outside quotes. -/
  | escape (inWord : Bool)
  /-- Between single quotes. -/
  | single
  /-- Between double quotes. -/
  | double
  /-- After a backslash between double quotes. -/
  | doubleEscape
  | comment
  deriving DecidableEq, Repr

/-- An operator, or the start of an expansion, outside quotes. -/
def isActive (c : Char) : Bool :=
  Shell.endsWord c || c == '$' || c == backquote || c == '*' || c == '?' || c == '['

/-- A character that a backslash between double quotes keeps from its meaning. -/
def isEscaped (c : Char) : Bool := c == '$' || c == backquote || c == '"' || c == '\\'

/-- What is kept of a character, or of the backslash before it, and where the reader stands then;
`none` at what is no part of a word or would have to be expanded. -/
def step : Place → Char → Option (List Char × Place)
  | .plain inWord, c =>
    if Shell.isBlankChar c then some ([], .plain false)
    else if c = '\'' then some ([], .single)
    else if c = '"' then some ([], .double)
    else if c = '\\' then some ([], .escape inWord)
    else if c = '#' ∧ inWord = false then some ([], .comment)
    else if isActive c ∨ c = '~' ∧ inWord = false then none
    else some ([c], .plain true)
  | .escape inWord, c => if c = '\n' then some ([], .plain inWord) else some ([c], .plain true)
  | .single, c => if c = '\'' then some ([], .plain true) else some ([c], .single)
  | .double, c =>
    if c = '"' then some ([], .plain true)
    else if c = '\\' then some ([], .doubleEscape)
    else if c = '$' ∨ c = backquote then none
    else some ([c], .double)
  | .doubleEscape, c =>
    if c = '\n' then some ([], .double)
    else if isEscaped c then some ([c], .double)
    else some (['\\', c], .double)
  | .comment, c => if c = '\n' then none else some ([], .comment)

/-- The words with characters put before the first of them. -/
def glue (kept : List Char) (ws : List (List Char)) : List (List Char) :=
  match kept, ws with
  | [], ws => ws
  | kept, [] => [kept]
  | kept, w :: ws => (kept ++ w) :: ws

/-- The words from one place to the next: a word ends where the reader leaves it. -/
def parted (p q : Place) (ws : List (List Char)) : List (List Char) :=
  if p = .plain true ∧ q = .plain false then [] :: ws else ws

/-- The words of a text read from a place, the rest of the word it is in first. -/
def readWords : Place → List Char → Option (List (List Char))
  | .plain inWord, [] => some (if inWord then [[]] else [])
  | .comment, [] => some []
  | _, [] => none
  | p, c :: cs =>
    (step p c).bind fun (kept, q) => (readWords q cs).map fun ws => parted p q (glue kept ws)

/-- The words of a line. -/
def words? (line : String) : Option (List String) :=
  (readWords (.plain false) line.toList).map (·.map String.ofList)

example : words? "\"a b\"'$'\\  run # it" = some ["a b$ ", "run"] := by decide +kernel

example : words? "echo \"$HOME\"" = none := by decide +kernel

/-! ## Turns -/

/-- What a reader can do with a character: from where, what it keeps, and where it goes. -/
inductive Turn : Place → Char → List Char → Place → Prop
  | blank {b : Bool} {c : Char} (h : Shell.isBlankChar c = true) :
      Turn (.plain b) c [] (.plain false)
  | openSingle {b : Bool} : Turn (.plain b) '\'' [] .single
  | openDouble {b : Bool} : Turn (.plain b) '"' [] .double
  | backslash {b : Bool} : Turn (.plain b) '\\' [] (.escape b)
  | hash : Turn (.plain false) '#' [] .comment
  | bare {b : Bool} {c : Char} (hquote : c ≠ '"') : Turn (.plain b) c [c] (.plain true)
  | joined {b : Bool} : Turn (.escape b) '\n' [] (.plain b)
  | escaped {b : Bool} {c : Char} : Turn (.escape b) c [c] (.plain true)
  | closeSingle : Turn .single '\'' [] (.plain true)
  | inSingle {c : Char} : Turn .single c [c] .single
  | closeDouble : Turn .double '"' [] (.plain true)
  | backslashIn : Turn .double '\\' [] .doubleEscape
  | inDouble {c : Char} (hquote : c ≠ '"') (hback : c ≠ '\\')
      (hactive : ¬ (c = '$' ∨ c = backquote)) : Turn .double c [c] .double
  | joinedIn : Turn .doubleEscape '\n' [] .double
  | escapedIn {c : Char} (h : isEscaped c = true) : Turn .doubleEscape c [c] .double
  | bothKept {c : Char} (h : isEscaped c = false) (hline : c ≠ '\n') :
      Turn .doubleEscape c ['\\', c] .double
  | inComment {c : Char} : Turn .comment c [] .comment

theorem turn_of_step_plain {b : Bool} {c : Char} {kept : List Char} {q : Place}
    (h : step (.plain b) c = some (kept, q)) : Turn (.plain b) c kept q := by
  rw [step] at h
  split at h
  · next hblank => cases h; exact .blank hblank
  split at h
  · next hc => cases h; exact hc ▸ .openSingle
  split at h
  · next hc => cases h; exact hc ▸ .openDouble
  split at h
  · next hc => cases h; exact hc ▸ .backslash
  split at h
  · next hc => cases h; obtain ⟨rfl, rfl⟩ := hc; exact .hash
  split at h
  · cases h
  · cases h; exact .bare ‹_›

theorem turn_of_step {p q : Place} {c : Char} {kept : List Char} (h : step p c = some (kept, q)) :
    Turn p c kept q := by
  cases p with
  | plain b => exact turn_of_step_plain h
  | escape b =>
      rw [step] at h
      split at h
      · next hc => cases h; exact hc ▸ .joined
      · cases h; exact .escaped
  | single =>
      rw [step] at h
      split at h
      · next hc => cases h; exact hc ▸ .closeSingle
      · cases h; exact .inSingle
  | double =>
      rw [step] at h
      split at h
      · next hc => cases h; exact hc ▸ .closeDouble
      split at h
      · next hc => cases h; exact hc ▸ .backslashIn
      split at h
      · cases h
      · cases h; exact .inDouble ‹_› ‹_› ‹_›
  | doubleEscape =>
      rw [step] at h
      split at h
      · next hc => cases h; exact hc ▸ .joinedIn
      split at h
      · next hc => cases h; exact .escapedIn hc
      · next hc => cases h; exact .bothKept (by simpa using hc) ‹_›
  | comment =>
      rw [step] at h
      split at h
      · cases h
      · cases h; exact .inComment

theorem readWords_cons (p : Place) (c : Char) (cs : List Char) :
    readWords p (c :: cs) =
      (step p c).bind fun (kept, q) =>
        (readWords q cs).map fun ws => parted p q (glue kept ws) := by
  cases p <;> rfl

theorem readWords_of_step {p q : Place} {c : Char} {kept : List Char}
    (h : step p c = some (kept, q)) (cs : List Char) :
    readWords p (c :: cs) = (readWords q cs).map fun ws => parted p q (glue kept ws) := by
  rw [readWords_cons, h]
  rfl

theorem exists_turn {p : Place} {c : Char} {cs : List Char} {ws : List (List Char)}
    (h : readWords p (c :: cs) = some ws) :
    ∃ kept q rest, Turn p c kept q ∧ readWords q cs = some rest ∧
      ws = parted p q (glue kept rest) := by
  rw [readWords_cons] at h
  obtain ⟨⟨kept, q⟩, hstep, hrest⟩ := Option.bind_eq_some_iff.mp h
  obtain ⟨rest, hrest, hws⟩ := Option.map_eq_some_iff.mp hrest
  exact ⟨kept, q, rest, turn_of_step hstep, hrest, hws.symm⟩

/-! ## Nothing is put in -/

theorem flatten_glue (kept : List Char) (ws : List (List Char)) :
    (glue kept ws).flatten = kept ++ ws.flatten := by
  cases kept with
  | nil => rfl
  | cons c cs =>
      cases ws with
      | nil => simp [glue]
      | cons w ws => simp [glue]

theorem flatten_parted (p q : Place) (ws : List (List Char)) :
    (parted p q ws).flatten = ws.flatten := by
  unfold parted
  split
  · rfl
  · rfl

/-- What has been read and may still be kept. -/
def Place.held : Place → List Char
  | .doubleEscape => ['\\']
  | _ => []

/-- A turn keeps the character, or what was held before it, or leaves them out. -/
theorem Turn.sublist {p q : Place} {c : Char} {kept : List Char} (h : Turn p c kept q) :
    (kept ++ q.held).Sublist (p.held ++ [c]) := by
  cases h with
  | bare | escaped | inSingle | inDouble | backslashIn => exact List.Sublist.refl [_]
  | escapedIn => exact (List.Sublist.refl [_]).cons _
  | bothKept => exact List.Sublist.refl [_, _]
  | _ => exact List.nil_sublist _

/-- The words are a subsequence of what is read. -/
theorem flatten_readWords {p : Place} {cs : List Char} {ws : List (List Char)}
    (h : readWords p cs = some ws) : ws.flatten.Sublist (p.held ++ cs) := by
  induction cs generalizing p ws with
  | nil =>
      have hnil : ws.flatten = [] := by
        cases p with
        | plain b => cases b <;> cases h <;> rfl
        | comment => cases h; rfl
        | _ => cases h
      rw [hnil]
      exact List.nil_sublist _
  | cons c cs ih =>
      obtain ⟨kept, q, rest, hturn, hrest, rfl⟩ := exists_turn h
      rw [flatten_parted, flatten_glue]
      calc (kept ++ rest.flatten).Sublist (kept ++ (q.held ++ cs)) := (ih hrest).append_left kept
        _ = kept ++ q.held ++ cs := (List.append_assoc ..).symm
        _ |>.Sublist (p.held ++ [c] ++ cs) := hturn.sublist.append_right cs
        _ = p.held ++ c :: cs := by rw [List.append_assoc]; rfl

/-- What no part of a reading loses is lost neither by its first turn nor after it. -/
theorem count_turn_of_count {p q : Place} {c x : Char} {kept cs : List Char}
    {rest : List (List Char)} (hturn : Turn p c kept q) (hrest : readWords q cs = some rest)
    (h : (p.held ++ c :: cs).count x ≤ (kept ++ rest.flatten).count x) :
    (p.held ++ [c]).count x ≤ (kept ++ q.held).count x ∧
      (q.held ++ cs).count x ≤ rest.flatten.count x := by
  have hnow := hturn.sublist.count_le x
  have hlater := (flatten_readWords hrest).count_le x
  have hsplit : p.held ++ c :: cs = p.held ++ [c] ++ cs := by simp
  rw [hsplit] at h
  simp only [List.count_append] at h hnow hlater ⊢
  omega

/-! ## Quotes that are all read as quotes -/

/-- The characters by which a reader can come to keep a double quote. -/
def marks : List Char := ['\\', '\'', '#']

/-- A place that is reached without leaving out a mark. -/
def Place.Tame : Place → Prop
  | .plain _ | .double | .doubleEscape => True
  | _ => False

theorem Turn.tame {p q : Place} {c : Char} {kept : List Char} (h : Turn p c kept q)
    (hp : p.Tame)
    (hmarks : ∀ x ∈ marks, (p.held ++ [c]).count x ≤ (kept ++ q.held).count x) :
    q.Tame ∧ '"' ∉ kept := by
  have hback := hmarks '\\' (by simp [marks])
  cases h with
  | blank | openDouble | closeDouble | backslashIn => exact ⟨trivial, List.not_mem_nil⟩
  | openSingle => exact absurd (hmarks '\'' (by simp [marks])) (by simp [Place.held])
  | hash => exact absurd (hmarks '#' (by simp [marks])) (by simp [Place.held])
  | backslash | joinedIn => exact absurd hback (by simp [Place.held])
  | bare hquote => exact ⟨trivial, by simpa using hquote.symm⟩
  | inDouble hquote => exact ⟨trivial, by simpa using hquote.symm⟩
  | escapedIn => exact absurd hback (by simp [Place.held])
  | bothKept h =>
      have hquote : c ≠ '"' := by
        rintro rfl
        exact absurd h (by decide)
      exact ⟨trivial, by simpa using hquote.symm⟩
  | joined | escaped | closeSingle | inSingle | inComment => exact hp.elim

/-- A reader that loses no mark takes every double quote for a quote. -/
theorem not_mem_of_readWords {p : Place} {cs : List Char} {ws : List (List Char)}
    (hp : p.Tame) (h : readWords p cs = some ws)
    (hmarks : ∀ x ∈ marks, (p.held ++ cs).count x ≤ ws.flatten.count x) :
    '"' ∉ ws.flatten := by
  induction cs generalizing p ws with
  | nil =>
      cases p with
      | plain b => cases b <;> cases h <;> exact List.not_mem_nil
      | comment => exact hp.elim
      | _ => cases h
  | cons c cs ih =>
      obtain ⟨kept, q, rest, hturn, hrest, rfl⟩ := exists_turn h
      rw [flatten_parted, flatten_glue] at hmarks ⊢
      have hcount := fun x hx => count_turn_of_count hturn hrest (hmarks x hx)
      obtain ⟨hq, hkept⟩ := hturn.tame hp fun x hx => (hcount x hx).1
      have hlater := ih hq hrest fun x hx => (hcount x hx).2
      simp [hkept, hlater]

/-! ## Texts in double quotes -/

/-- What may follow a backslash that is kept. -/
def goesOn : List Char → Bool
  | [] => false
  | c :: _ => c != '\\' && c != '\n'

/-- A text that double quotes are read around as it is: it has no quote and nothing to expand in it,
and each of its backslashes stands before a character that it does not change. -/
def inert : List Char → Bool
  | [] => true
  | c :: cs =>
    c != '"' && c != '$' && c != backquote && (c != '\\' || goesOn cs) && inert cs

theorem inert_cons {c : Char} {cs : List Char} :
    inert (c :: cs) = true ↔
      c ≠ '"' ∧ ¬ (c = '$' ∨ c = backquote) ∧ (c = '\\' → goesOn cs = true) ∧
        inert cs = true := by
  by_cases hc : c = '\\' <;> simp [inert, hc, and_assoc]

theorem inert_backslash_cons {c : Char} {cs : List Char} :
    inert ('\\' :: c :: cs) = true ↔ isEscaped c = false ∧ c ≠ '\n' ∧ inert cs = true := by
  have hback : ('\\' : Char) ≠ backquote := by decide
  simp only [inert_cons, goesOn, isEscaped]
  by_cases hc : c = '\\'
  · simp [hc]
  · simp [hc, hback]
    tauto

theorem glue_glue (a b : List Char) (ws : List (List Char)) :
    glue a (glue b ws) = glue (a ++ b) ws := by
  cases a with
  | nil => rfl
  | cons c cs =>
      cases b with
      | nil => simp [glue]
      | cons d ds => cases ws <;> simp [glue]

/-- A place between double quotes. -/
def Place.Quoted (p : Place) : Prop := p = .double ∨ p = .doubleEscape

/-- From between double quotes an inert text is read as it is, up to the quote that closes it. -/
theorem readWords_inert {p : Place} {t : List Char} (hp : p.Quoted)
    (h : inert (p.held ++ t) = true) (rest : List Char) :
    readWords p (t ++ '"' :: rest) =
      (readWords (.plain true) rest).map (glue (p.held ++ t)) := by
  induction t generalizing p with
  | nil =>
      obtain rfl | rfl := hp
      · have hstep : step .double '"' = some ([], .plain true) := rfl
        exact readWords_of_step hstep rest
      · exact absurd h (by decide)
  | cons c t ih =>
      obtain rfl | rfl := hp
      · obtain ⟨hquote, hactive, -, ht⟩ := inert_cons.mp h
        by_cases hback : c = '\\'
        · subst hback
          have hstep : step .double '\\' = some ([], .doubleEscape) := rfl
          rw [List.cons_append, readWords_of_step hstep, ih (.inr rfl) h, Option.map_map]
          rfl
        · have hstep : step .double c = some ([c], .double) := by
            simp [step, hquote, hback, hactive]
          rw [List.cons_append, readWords_of_step hstep, ih (.inl rfl) ht, Option.map_map]
          exact congrArg (Option.map · _) (funext fun ws => glue_glue [c] t ws)
      · obtain ⟨hescaped, hline, ht⟩ := inert_backslash_cons.mp h
        have hstep : step .doubleEscape c = some (['\\', c], .double) := by
          simp [step, hescaped, hline]
        rw [List.cons_append, readWords_of_step hstep, ih (.inl rfl) ht, Option.map_map]
        exact congrArg (Option.map · _) (funext fun ws => glue_glue ['\\', c] t ws)

/-- A text without a quote that is read between double quotes with all its backslashes is inert. -/
theorem inert_of_readWords {p : Place} {t rest : List Char} {ws : List (List Char)} (hp : p.Quoted)
    (hquote : '"' ∉ t) (h : readWords p (t ++ '"' :: rest) = some ws)
    (hback : (p.held ++ (t ++ '"' :: rest)).count '\\' ≤ ws.flatten.count '\\') :
    inert (p.held ++ t) = true := by
  induction t generalizing p ws with
  | nil =>
      obtain rfl | rfl := hp
      · rfl
      · obtain ⟨kept, q, later, hturn, hlater, rfl⟩ := exists_turn h
        rw [flatten_parted, flatten_glue] at hback
        -- the closing quote is escaped, and so the backslash is lost
        have hnow := (count_turn_of_count hturn hlater hback).1
        cases hturn with
        | escapedIn => exact absurd hnow (by simp [Place.held])
        | bothKept hescaped => exact absurd hescaped (by decide)
  | cons c t ih =>
      obtain ⟨hc, ht⟩ := not_or.mp (fun hor => hquote (List.mem_cons.mpr hor))
      obtain ⟨kept, q, later, hturn, hlater, rfl⟩ := exists_turn h
      rw [flatten_parted, flatten_glue] at hback
      obtain ⟨hnow, hthen⟩ := count_turn_of_count hturn hlater hback
      obtain rfl | rfl := hp
      · cases hturn with
        | closeDouble => exact absurd rfl hc
        | backslashIn => exact ih (.inr rfl) ht hlater hthen
        | inDouble hquote hplain hactive =>
            exact inert_cons.mpr ⟨hquote, hactive, fun h => absurd h hplain,
              ih (.inl rfl) ht hlater hthen⟩
      · cases hturn with
        | joinedIn | escapedIn => exact absurd hnow (by simp [Place.held])
        | bothKept hescaped hline =>
            exact inert_backslash_cons.mpr ⟨hescaped, hline, ih (.inl rfl) ht hlater hthen⟩

/-! ## A line of quoted texts -/

theorem glue_nil_cons (t : List Char) (ws : List (List Char)) : glue t ([] :: ws) = t :: ws := by
  cases t <;> simp [glue]

theorem readWords_open (cs : List Char) :
    readWords (.plain false) ('"' :: cs) = readWords .double cs := by
  have hstep : step (.plain false) '"' = some ([], .double) := rfl
  rw [readWords_of_step hstep]
  exact Option.map_id'

/-- A quoted text that ends the line. -/
theorem readWords_quoted_last {t : List Char} (h : inert t = true) :
    readWords (.plain false) ('"' :: (t ++ ['"'])) = some [t] := by
  rw [readWords_open, readWords_inert (.inl rfl) h]
  exact congrArg some (glue_nil_cons t [])

theorem readWords_blank (rest : List Char) :
    readWords (.plain true) (' ' :: rest) = (readWords (.plain false) rest).map ([] :: ·) := by
  have hstep : step (.plain true) ' ' = some ([], .plain false) := rfl
  exact readWords_of_step hstep rest

/-- A quoted text and a blank after it. -/
theorem readWords_quoted {t : List Char} (h : inert t = true) (rest : List Char) :
    readWords (.plain false) ('"' :: (t ++ '"' :: ' ' :: rest)) =
      (readWords (.plain false) rest).map (t :: ·) := by
  rw [readWords_open, readWords_inert (.inl rfl) h, readWords_blank, Option.map_map]
  exact congrArg (Option.map · _) (funext fun ws => glue_nil_cons t ws)

/-- A word of letters alone and a blank after it. -/
theorem readWords_run (rest : List Char) :
    readWords (.plain false) ('r' :: 'u' :: 'n' :: ' ' :: rest) =
      (readWords (.plain false) rest).map (['r', 'u', 'n'] :: ·) := by
  have hfirst : step (.plain false) 'r' = some (['r'], .plain true) := rfl
  have hu : step (.plain true) 'u' = some (['u'], .plain true) := rfl
  have hn : step (.plain true) 'n' = some (['n'], .plain true) := rfl
  rw [readWords_of_step hfirst, readWords_of_step hu, readWords_of_step hn, readWords_blank]
  simp only [Option.map_map]
  rfl

theorem inert_of_quoted {t rest : List Char} {ws : List (List Char)}
    (h : readWords (.plain false) ('"' :: (t ++ '"' :: rest)) = some ws) (hquote : '"' ∉ t)
    (hback : (t ++ rest).count '\\' ≤ ws.flatten.count '\\') : inert t = true := by
  rw [readWords_open] at h
  refine inert_of_readWords (.inl rfl) hquote h ?_
  simpa [Place.held] using hback

/-- Three texts in double quotes, and a bare word before the last of them. -/
def typed (a b c : List Char) : List Char :=
  '"' :: (a ++ '"' :: ' ' :: '"' :: (b ++ '"' :: ' ' :: 'r' :: 'u' :: 'n' :: ' ' :: '"' ::
    (c ++ ['"'])))

/-- The line is read as its four words exactly if each text in it is inert. -/
theorem readWords_typed_iff {a b c : List Char} :
    readWords (.plain false) (typed a b c) = some [a, b, ['r', 'u', 'n'], c] ↔
      inert a = true ∧ inert b = true ∧ inert c = true := by
  constructor
  · intro h
    -- the line has the marks of its words and no others, so the reader has lost none
    have hquote : '"' ∉ [a, b, ['r', 'u', 'n'], c].flatten := by
      refine not_mem_of_readWords (p := .plain false) trivial h fun x hx => ?_
      simp only [marks, List.mem_cons, List.not_mem_nil, or_false] at hx
      obtain rfl | rfl | rfl := hx <;> simp [typed, Place.held]
    simp only [List.flatten_cons, List.mem_append, not_or] at hquote
    obtain ⟨ha, hb, -, hc, -⟩ := hquote
    have hinert := inert_of_quoted h ha (by simp)
    have hrest := h
    rw [typed, readWords_quoted hinert] at hrest
    obtain ⟨_, hb', heq⟩ := Option.map_eq_some_iff.mp hrest
    cases heq
    have hinert' := inert_of_quoted hb' hb (by simp)
    rw [readWords_quoted hinert', readWords_run, Option.map_map] at hb'
    obtain ⟨_, hc', heq⟩ := Option.map_eq_some_iff.mp hb'
    cases heq
    exact ⟨hinert, hinert', inert_of_quoted hc' hc (by simp)⟩
  · rintro ⟨ha, hb, hc⟩
    rw [typed, readWords_quoted ha, readWords_quoted hb, readWords_run, readWords_quoted_last hc]
    rfl

end Relay.Quoting

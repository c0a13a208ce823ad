import Relay.Proofs.Controller.Exclusion

/-!
# What the output area shows

Runs of typed code replace the output area when they complete; runs on files start it anew with a
header when they are accepted, and add to it when they complete.  Nothing tells which run a text
belongs to, so texts land in the order of completion.  The law that remains is about the log
alone: find the last line that starts the area anew; after its text stand the texts of the runs on
files that completed since.

The user is led to the key once for every run of typed code that completes as unauthorized, and by
nothing else.
-/

namespace Relay

/-! ## The text, read off the log -/

namespace Note

/-- The text with which a line starts the output area anew. -/
def anew? : Note → Option String
  | cleared => some ""
  | accepted _ _ r =>
    match r.origin with
    | .typed _ => none
    | .file f => some (r.operation.header f)
  | completed _ _ r o =>
    match r.origin with
    | .typed _ => some o.playground.output
    | .file _ => none
  | _ => none

/-- The text that a line adds to the output area. -/
def adds? : Note → Option String
  | completed _ _ r o =>
    match r.origin with
    | .typed _ => none
    | .file f => some (o.editor r.operation f).output
  | _ => none

/-- The run for which the user is led to the key. -/
def focuses? : Note → Option (Option Nat)
  | did who (.surface .focusKey) => some who
  | _ => none

/-- The run of typed code that ends as unauthorized. -/
def refused? : Note → Option (Option Nat)
  | completed n _ r (.unauthorized _) =>
    match r.origin with
    | .typed _ => some (some n)
    | .file _ => none
  | _ => none

end Note

namespace Log

/-- The output area after a line, where `text` was. -/
def retext (text : String) (m : Note) : String := m.anew?.getD (text ++ m.adds?.getD "")

/-- The output area after all lines. -/
def text (log : Log) : String := log.foldl retext ""

@[simp] theorem text_append (log more : Log) :
    text (log ++ more) = more.foldl retext (text log) := by
  simp [text]

@[simp] theorem foldl_retext_deeds (who : Option Nat) (es : List Event) (before : String) :
    (deeds who es).foldl retext before = before := by
  induction es with
  | nil => rfl
  | cons e es ih => simpa [deeds, retext, Note.anew?, Note.adds?] using ih

/-- Lines that start nothing anew only add. -/
theorem foldl_retext_of_not_anew {log : Log} (h : ∀ m ∈ log, m.anew? = none) (before : String) :
    log.foldl retext before = before ++ String.join (log.filterMap Note.adds?) := by
  induction log generalizing before with
  | nil => simp
  | cons m log ih =>
      have hm : retext before m = before ++ m.adds?.getD "" := by
        simp [retext, h m (List.mem_cons_self ..)]
      rw [List.foldl_cons, hm, ih fun x hx => h x (List.mem_cons_of_mem _ hx)]
      cases ha : m.adds? with
      | none => simp [ha]
      | some t => simp [ha, String.append_assoc]

/-- The text is that of the last line that starts it anew, and what was added since. -/
theorem text_eq {before after : Log} {m : Note} {start : String} (hm : m.anew? = some start)
    (hafter : ∀ x ∈ after, x.anew? = none) :
    text (before ++ m :: after) = start ++ String.join (after.filterMap Note.adds?) := by
  rw [text_append, List.foldl_cons, foldl_retext_of_not_anew hafter]
  simp [retext, hm]

end Log

/-! ## The surface shows it -/

namespace Screen

theorem output_announced (screen : Screen) (r : Request) :
    (screen.displayAll r.announced).output =
      match r.origin with
      | .typed _ => screen.output
      | .file f => r.operation.header f := by
  cases ho : r.origin <;> simp [Request.announced, ho, displayAll, display]

theorem output_concluded (screen : Screen) (r : Request) (o : Outcome) (left : Nat) :
    (screen.displayAll (r.concluded o left)).output =
      match r.origin with
      | .typed _ => o.playground.output
      | .file f => screen.output ++ (o.editor r.operation f).output := by
  cases ho : r.origin with
  | typed code =>
      by_cases hf : o.playground.focusKey = true <;> by_cases hl : left = 0 <;>
        simp [Request.concluded, Controller.shown, ho, hf, hl, displayAll, display]
  | file f =>
      by_cases hl : left = 0 <;>
        simp [Request.concluded, Controller.shown, ho, hl, displayAll, display]

end Screen

/-- A line that shows nothing and is about no text leaves both as they are. -/
theorem Log.output_quiet {log : Log} (h : (screen log).output = text log) {m : Note}
    (hevent : m.event? = none) (hanew : m.anew? = none) (hadds : m.adds? = none) :
    (screen (log ++ [m])).output = text (log ++ [m]) := by
  have hevents : events [m] = [] := by simp [events, hevent]
  rw [screen_append, hevents, text_append]
  simpa [Screen.displayAll, retext, hanew, hadds] using h

theorem Written.output {log : Log} {k : Nat} (h : Written log k) :
    (Log.screen log).output = Log.text log := by
  induction h with
  | nil => rfl
  | ask n name _ _ ih => exact Log.output_quiet ih rfl rfl rfl
  | @accept log k n name t r _ _ _ ih =>
      -- a header replaces what is shown, whichever runs are still in flight
      have hevents : Log.events (.accepted n t r :: Log.deeds (some n) r.announced) = r.announced :=
        Log.events_deeds _ _
      rw [Log.screen_append, hevents, Screen.output_announced, Log.text_append, List.foldl_cons,
        Log.foldl_retext_deeds, ih]
      cases ho : r.origin <;> simp [Log.retext, Note.anew?, Note.adds?, ho]
  | ignore _ _ _ ih => exact Log.output_quiet ih rfl rfl rfl
  | invoke _ _ ih => exact Log.output_quiet ih rfl rfl rfl
  | file name rep _ ih => exact Log.output_quiet ih rfl rfl rfl
  | @complete log k n name t r rep _ _ _ ih =>
      have hevents : Log.events (Log.deeds (some n) (r.concluded rep.outcome (k - 1)) ++
          [.completed n name r rep.outcome]) = r.concluded rep.outcome (k - 1) := by
        rw [Log.events_append, Log.events_deeds]
        exact List.append_nil _
      rw [Log.screen_append, hevents, Screen.output_concluded, Log.text_append, List.foldl_append,
        Log.foldl_retext_deeds, ih]
      cases ho : r.origin <;> simp [Log.retext, Note.anew?, Note.adds?, ho]
  | decline _ _ ih => exact Log.output_quiet ih rfl rfl rfl
  | clear _ ih =>
      rw [Log.screen_append, Log.text_append, List.foldl_append, Log.foldl_retext_deeds]
      rfl

/-! ## The key -/

namespace Log

/-- The runs for which the user was led to the key, in order; none where no run did it. -/
def focused (log : Log) : List (Option Nat) := log.filterMap Note.focuses?

/-- The runs of typed code that completed as unauthorized, in order. -/
def refused (log : Log) : List (Option Nat) := log.filterMap Note.refused?

theorem focused_append (log more : Log) : focused (log ++ more) = focused log ++ focused more := by
  simp [focused]

theorem refused_append (log more : Log) : refused (log ++ more) = refused log ++ refused more := by
  simp [refused]

theorem refused_deeds (who : Option Nat) (es : List Event) : refused (deeds who es) = [] := by
  simp [refused, deeds, Note.refused?]

theorem focused_deeds (who : Option Nat) (es : List Event) :
    focused (deeds who es) = List.replicate (es.count .focusKey) who := by
  induction es with
  | nil => rfl
  | cons e es ih =>
      simp only [focused, deeds, List.map_cons] at ih ⊢
      cases e with
      | focusKey =>
          have hm : (Note.did who (.surface .focusKey)).focuses? = some who := rfl
          rw [List.filterMap_cons_some hm, ih, List.count_cons_self, List.replicate_succ]
      | _ => rw [List.filterMap_cons_none rfl, ih, List.count_cons_of_ne (by simp)]

end Log

theorem Request.count_announced (r : Request) : r.announced.count .focusKey = 0 := by
  cases ho : r.origin <;> simp [Request.announced, ho]

/-- The end of a run leads to the key exactly when it refuses one. -/
theorem Request.count_concluded (r : Request) (n : Nat) (name : String) (o : Outcome) (left : Nat) :
    List.replicate ((r.concluded o left).count .focusKey) (some n) =
      Log.refused [.completed n name r o] := by
  -- only the view of typed code has a mark for the key, and only for this one outcome
  cases ho : r.origin <;> cases o <;> by_cases hl : left = 0 <;>
    simp [Request.concluded, Controller.shown, Outcome.playground, Log.refused, Note.refused?,
      ho, hl]

theorem Written.focused {log : Log} {k : Nat} (h : Written log k) :
    Log.focused log = Log.refused log := by
  induction h with
  | nil => rfl
  | ask n name _ _ ih => rw [Log.focused_append, Log.refused_append, ih]; rfl
  | @accept log k n name t r _ _ _ ih =>
      have hfocused : Log.focused (.accepted n t r :: Log.deeds (some n) r.announced) = [] := by
        refine (Log.focused_deeds (some n) r.announced).trans ?_
        rw [Request.count_announced]
        rfl
      have hrefused : Log.refused (.accepted n t r :: Log.deeds (some n) r.announced) = [] :=
        Log.refused_deeds (some n) r.announced
      rw [Log.focused_append, Log.refused_append, ih, hfocused, hrefused]
  | ignore _ _ _ ih => rw [Log.focused_append, Log.refused_append, ih]; rfl
  | invoke _ _ ih => rw [Log.focused_append, Log.refused_append, ih]; rfl
  | file name rep _ ih => rw [Log.focused_append, Log.refused_append, ih]; rfl
  | complete _ _ _ ih =>
      rw [Log.focused_append, Log.refused_append, ih, Log.focused_append, Log.refused_append,
        Log.focused_deeds, Log.refused_deeds, Request.count_concluded]
      exact congrArg _ (List.append_nil _)
  | decline _ _ ih => rw [Log.focused_append, Log.refused_append, ih]; rfl
  | clear _ ih => rw [Log.focused_append, Log.refused_append, ih]; rfl

/-! ## The law -/

/-- A run on a file adds only after it was accepted, which starts the area anew. -/
theorem Written.adds?_eq_none {log : Log} {k : Nat} (h : Written log k)
    (hnone : ∀ x ∈ log, x.anew? = none) : ∀ x ∈ log, x.adds? = none := by
  intro x hx
  cases x with
  | completed n name r o =>
      obtain ⟨before, after, rfl⟩ := List.append_of_mem hx
      obtain ⟨-, ⟨t, haccepted⟩, -⟩ := h.grounded_line
      have hstart := hnone _ (List.mem_append_left _ haccepted)
      cases ho : r.origin with
      | typed code => simp [Note.adds?, ho]
      | file f => simp [Note.anew?, ho] at hstart
  | _ => rfl

/-- After every sequence of steps the output area holds the text of the last line that starts it
anew (a clearing, a completed run of typed code or an accepted run on a file), followed by the
views of the runs on files that completed since, in the order of completion; before any such line
it is empty.  The outcomes are those of the reports filed for the runs, and the user is led to the
key once by each run of typed code that completes as unauthorized, and not otherwise. -/
theorem output_follows_log {σ : Type} (store : Store σ) (credential : Credential σ)
    (steps : List Step) :
    let l := Ledger.run store credential steps
    (∀ before m after start, l.log = before ++ m :: after → m.anew? = some start →
      (∀ x ∈ after, x.anew? = none) →
      (Log.screen l.log).output = start ++ String.join (after.filterMap Note.adds?)) ∧
    ((∀ x ∈ l.log, x.anew? = none) → (Log.screen l.log).output = "" ∧
      ∀ x ∈ l.log, x.adds? = none) ∧
    (∀ before after n name r o, l.log = before ++ .completed n name r o :: after →
      ∃ rep, Log.filed name before = some rep ∧ o = rep.outcome) ∧
    Log.focused l.log = Log.refused l.log := by
  intro l
  have h : Written l.log l.desk.controller.inFlight := (tracks_run store credential steps).written
  refine ⟨?_, ?_, ?_, h.focused⟩
  · intro before m after start hlog hm hafter
    rw [h.output, hlog, Log.text_eq hm hafter]
  · intro hnone
    have hadds := h.adds?_eq_none hnone
    refine ⟨?_, hadds⟩
    rw [h.output, Log.text, Log.foldl_retext_of_not_anew hnone,
      List.filterMap_eq_nil_iff.mpr hadds]
    rfl
  · intro before after n name r o hlog
    exact (hlog ▸ h).grounded_line.2.2

/-- Typed code completes while a run on a file is in flight: the header is gone, and the view of
the file stands after the text of the code. -/
theorem output_follows_log_overlap :
    let f : SourceFile := ⟨⟨[97, 46, 106, 97, 116, 116, 105]⟩, by decide +kernel⟩
    let l := Ledger.run memoryStore ⟨"", []⟩
      [.runFile "f" .button .build f, .poll "f", .runCode "c" .accelerator "1", .report "c" .blank,
        .poll "c", .report "f" .blank, .poll "f"]
    (Log.screen l.log).output =
      Report.blank.outcome.playground.output ++ (Report.blank.outcome.editor .build f).output := by
  intro f l
  have hlog : l.log = l.log.take 14 ++
      .completed 6 "c" (.typed "1" none) Report.blank.outcome :: l.log.drop 15 := by decide +kernel
  have hafter : ∀ x ∈ l.log.drop 15, x.anew? = none := by decide +kernel
  have h := (output_follows_log memoryStore ⟨"", []⟩ _).1 _ _ _ _ hlog rfl hafter
  have hadds : (l.log.drop 15).filterMap Note.adds? =
      [(Report.blank.outcome.editor .build f).output] := by decide +kernel
  rw [h, hadds, String.join_cons, String.join_nil, String.append_empty]

end Relay

import Relay.Proofs.Outcome.Captured
import Relay.Proofs.Session.Chronicle
import Relay.Proofs.Session.Program

/-!
# What a session writes

A console cannot tell where its cursor is: a program is printed as it is, and the output of a run may or
may not end its line.  So that everything still starts on a fresh line, every text that goes to the
output is empty or ends in a line break (`FreshLines`).  For outputs the console sees to it, with a line
break where one is missing (`Shows`); for the program it is an invariant of the session, which samples,
resets and typed lines keep.  What is written for an outcome is told by its view alone (`Renders`).
-/

namespace Relay

/-! ## Fresh lines -/

/-- What comes after the text starts on a fresh line. -/
def Text.Fresh (s : String) : Prop := s = "" ∨ Text.endsLine s = true

namespace Text

instance (s : String) : Decidable (Fresh s) := inferInstanceAs (Decidable (_ ∨ _))

theorem fresh_line (s : String) : Fresh (s ++ "\n") := .inr ((endsLine_iff _).mpr ⟨s, rfl⟩)

theorem Fresh.append {s t : String} (hs : Fresh s) (ht : Fresh t) : Fresh (s ++ t) := by
  rcases ht with rfl | ht
  · rwa [String.append_empty]
  · obtain ⟨before, rfl⟩ := (endsLine_iff t).mp ht
    rw [← String.append_assoc]
    exact fresh_line _

theorem fresh_join {texts : List String} (h : ∀ t ∈ texts, Fresh t) : Fresh (String.join texts) := by
  induction texts with
  | nil => exact .inl rfl
  | cons t texts ih =>
      rw [String.join_cons]
      exact (h t List.mem_cons_self).append (ih fun u hu => h u (List.mem_cons_of_mem t hu))

theorem fresh_ofLines (lines : List String) : Fresh (ofLines lines) := by
  refine fresh_join fun t ht => ?_
  obtain ⟨line, -, rfl⟩ := List.mem_map.mp ht
  exact fresh_line line

end Text

/-- `text` shows `output`: as it is, with a line break after it exactly if it would not end its line. -/
def Shows (output text : String) : Prop :=
  if Text.Fresh output then text = output else text = output ++ "\n"

theorem shows_outputText (output : String) :
    Shows output (ConsoleStyle.playground.outputText output) := by
  unfold Shows ConsoleStyle.outputText Text.Fresh
  by_cases hempty : output = ""
  · simp [hempty]
  · by_cases hends : Text.endsLine output = true
    · simp [hends]
    · simp [hempty, hends]

theorem Shows.fresh {output text : String} (h : Shows output text) : Text.Fresh text := by
  unfold Shows at h
  split at h
  · next hfresh => exact h ▸ hfresh
  · exact h ▸ Text.fresh_line output

/-- `written` renders a view: its status in parentheses, its output on lines of its own, and what to do
about a key if the view leads there. -/
def Renders (v : View) (written : List Line) : Prop :=
  ∃ text, Shows v.output text ∧
    written = [⟨.err, "(" ++ v.status.text ++ ")\n"⟩, ⟨.out, text⟩] ++
      if v.focusKey then [⟨.err, "> :key <value>\n"⟩] else []

/-! ## Lines on the output -/

/-- The texts that lines write to the output, in their order. -/
def onOutput (lines : List Line) : List String :=
  (lines.filter (·.stream = .out)).map (·.text)

@[simp] theorem onOutput_append (ls ms : List Line) : onOutput (ls ++ ms) = onOutput ls ++ onOutput ms := by
  simp [onOutput]

@[simp] theorem onOutput_nil : onOutput [] = [] := rfl

@[simp] theorem onOutput_out (text : String) (ls : List Line) :
    onOutput (.out text :: ls) = text :: onOutput ls := rfl

@[simp] theorem onOutput_err (text : String) (ls : List Line) :
    onOutput (.err text :: ls) = onOutput ls := rfl

/-- Every text on the output leaves a fresh line behind. -/
def FreshLines (lines : List Line) : Prop := ∀ text ∈ onOutput lines, Text.Fresh text

namespace FreshLines

theorem nil : FreshLines [] := nofun

theorem append {ls ms : List Line} (hls : FreshLines ls) (hms : FreshLines ms) :
    FreshLines (ls ++ ms) := by
  intro text hmem
  rw [onOutput_append, List.mem_append] at hmem
  rcases hmem with hmem | hmem
  · exact hls text hmem
  · exact hms text hmem

theorem out {text : String} (h : Text.Fresh text) : FreshLines [.out text] := by
  simpa [FreshLines] using h

theorem err (text : String) : FreshLines [.err text] := nofun

theorem shown (e : Event) : FreshLines (ConsoleStyle.playground.shown e) := by
  cases e with
  | status s =>
      rw [ConsoleStyle.shown]
      split
      · exact nil
      · exact err _
  | setOutput text => exact out (shows_outputText text).fresh
  | appendOutput text => exact out (shows_outputText text).fresh
  | enableTrigger enabled => exact nil
  | focusKey => exact err _

theorem shownAll (es : List Event) : FreshLines (ConsoleStyle.playground.shownAll es) := by
  induction es with
  | nil => exact nil
  | cons e es ih => exact (shown e).append ih

end FreshLines

/-- A run of typed code, which is all that a session runs. -/
inductive Run.Typed : Run → Prop
  | ignored : Typed .ignored
  | accepted (code : String) (key : Option String) : Typed (.accepted (.typed code key))
  | waiting (code : String) (key : Option String) : Typed (.waiting (.typed code key))

/-- The output of a run that gets to go, once the executor has reported on it. -/
def Run.output? (run : Run) (report : Option Report) : Option String :=
  run.request?.bind fun _ => report.map (·.outcome.playground.output)

namespace Session

variable {σ : Type}

open Cli.Play (lines)

theorem lines_showEvents (es : List Event) :
    lines (showEvents es) = ConsoleStyle.playground.shownAll es := by
  simp [lines, showEvents, List.filterMap_map]

theorem freshLines_showEvents (es : List Event) : FreshLines (lines (showEvents es)) := by
  rw [lines_showEvents]
  exact .shownAll es

theorem freshLines_say (text : String) : FreshLines (lines (say text)) := .out (Text.fresh_line text)

theorem freshLines_flatMap {α : Type} {f : α → List Deed} (h : ∀ a, FreshLines (lines (f a)))
    (as : List α) : FreshLines (lines (as.flatMap f)) := by
  induction as with
  | nil => exact .nil
  | cons a as ih =>
      rw [List.flatMap_cons, lines_append]
      exact (h a).append ih

theorem freshLines_deeds (n : Nat) (effects : List Effect) : FreshLines (lines (deeds n effects)) := by
  refine freshLines_flatMap (fun e => ?_) effects
  cases e with
  | surface e => exact freshLines_showEvents [e]
  | invoke r => exact .nil

/-! ## The program -/

theorem fresh_findSample? {name code : String} (h : findSample? name = some code) :
    Text.Fresh code := by
  obtain ⟨sample, hfind, rfl⟩ := Option.map_eq_some_iff.mp h
  have hall : ∀ sample ∈ samples, Text.Fresh sample.code := by
    intro sample hsample
    simp only [samples, List.mem_cons, List.not_mem_nil, or_false] at hsample
    rcases hsample with rfl | rfl | rfl | rfl
    all_goals exact Text.fresh_ofLines _
  exact hall sample (List.mem_of_find?_eq_some hfind)

theorem Input.fresh_amend {program : String} (h : Text.Fresh program) (i : Input) :
    Text.Fresh (i.amend program) := by
  cases hbase : i.base? with
  | none =>
      rw [amend, hbase]
      exact h.append (Text.fresh_ofLines _)
  | some text =>
      rw [amend, hbase]
      cases i with
      | reset =>
          obtain rfl : "" = text := Option.some.inj hbase
          exact .inl rfl
      | sample name => exact fresh_findSample? hbase
      | _ => cases hbase

theorem freshLines_takeInput (store : Store σ) {s : Session σ} (h : Text.Fresh s.program)
    (i : Input) : FreshLines (lines (s.takeInput store i).2) := by
  cases i with
  | run t =>
      rw [takeInput, startRun, lines_append]
      refine FreshLines.append ?_ (freshLines_showEvents _)
      split
      · exact freshLines_say _
      · exact .nil
  | clear => exact freshLines_showEvents _
  | reset => exact .nil
  | key value =>
      simp only [takeInput, setKey]
      split
      · exact freshLines_say _
      · exact .err _
  | sample name =>
      cases hfind : findSample? name with
      | none =>
          simp only [takeInput, useSample, hfind]
          exact freshLines_say _
      | some code =>
          simp only [takeInput, useSample, hfind]
          exact .out (fresh_findSample? hfind)
  | samples =>
      rw [takeInput]
      exact freshLines_flatMap (fun _ => freshLines_say _) _
  | print => exact .out h
  | quit => exact .nil
  | line text => exact .nil

theorem freshLines_poll (s : Session σ) (n : Nat) (report : Option Report) :
    FreshLines (lines (s.poll n report).2) := by
  unfold poll
  split
  · exact .nil
  · dsimp only
    split
    · exact freshLines_deeds n _
    · exact freshLines_deeds n _
    · rw [lines_append]
      refine (freshLines_deeds n _).append ?_
      split
      · exact .nil
      · exact freshLines_say _

/-- Whatever a step writes to the output ends its line. -/
theorem freshLines_step (store : Store σ) {s : Session σ} (h : Text.Fresh s.program) (st : Step) :
    FreshLines (lines (s.step store st).2) := by
  cases st with
  | line text =>
      rw [step]
      split
      · exact .nil
      · exact freshLines_takeInput store h _
  | ended => exact .nil
  | poll n report => exact freshLines_poll s n report

/-! ## The outputs of runs -/

/-- What is shown for the outcome of typed code; its status is never empty. -/
theorem lines_shown (code : String) (key : Option String) (o : Outcome) :
    lines (showEvents (Controller.shown (.typed code key) o)) =
      [.err ("(" ++ o.playground.status.text ++ ")\n"),
        .out (ConsoleStyle.playground.outputText o.playground.output)] ++
      if o.playground.focusKey then [.err "> :key <value>\n"] else [] := by
  have hstatus : o.playground.status.isEmpty = false := by cases o <;> rfl
  have hevents : Controller.shown (.typed code key) o =
      [.status o.playground.status, .setOutput o.playground.output] ++
        (if o.playground.focusKey then [.focusKey] else []) := rfl
  rw [lines_showEvents, hevents]
  cases o.playground.focusKey <;>
    simp [ConsoleStyle.shownAll, ConsoleStyle.shown, ConsoleStyle.statusText, hstatus]

theorem renders_shown (code : String) (key : Option String) (o : Outcome) :
    Renders o.playground (lines (showEvents (Controller.shown (.typed code key) o))) :=
  ⟨_, shows_outputText _, lines_shown code key o⟩

/-- Of what is shown for an outcome, only its output goes to the output. -/
theorem onOutput_shown (code : String) (key : Option String) (o : Outcome) :
    onOutput (lines (showEvents (Controller.shown (.typed code key) o))) =
      [ConsoleStyle.playground.outputText o.playground.output] := by
  rw [lines_shown]
  split <;> rfl

/-- A session whose program ends its line and whose runs, each under a number of its own, are all of
typed code. -/
structure Sound (s : Session σ) : Prop where
  fresh : Text.Fresh s.program
  typed : ∀ p ∈ s.runs, p.2.Typed
  numbered : Numbered s

namespace Sound

variable {s : Session σ} {n : Nat} {run run' : Run} {controller : Controller σ}

theorem new (credential : Credential σ) : Sound (Session.new credential) :=
  ⟨Text.fresh_ofLines _, nofun, .new credential⟩

theorem typed_of_lookup (h : Sound s) (hrun : s.runs.lookup n = some run) : run.Typed := by
  obtain ⟨before, after, hruns, -⟩ := List.lookup_eq_some_iff.mp hrun
  exact h.typed (n, run) (by simp [hruns])

/-- A run that is asked for takes the next number. -/
theorem start (h : Sound s) (hrun : run.Typed)
    (hcount : controller.inFlight = s.controller.inFlight + placeOf (some run)) :
    Sound { s with controller, runs := s.runs ++ [(s.next, run)], next := s.next + 1 } := by
  refine ⟨h.fresh, ?_, h.numbered.start hcount⟩
  intro p hp
  rcases List.mem_append.mp hp with hp | hp
  · exact h.typed p hp
  · rw [List.mem_singleton.mp hp]
    exact hrun

/-- A run that stays under its number. -/
theorem replace (h : Sound s) (hrun : s.runs.lookup n = some run) (htyped : run'.Typed)
    (hplace : placeOf (some run') = placeOf (some run)) :
    Sound { s with runs := replaced n run' s.runs } := by
  refine ⟨h.fresh, ?_, h.numbered.replace hrun hplace⟩
  intro p hp
  obtain ⟨⟨m, r⟩, hmem, rfl⟩ := List.mem_map.mp hp
  dsimp only
  split
  · exact htyped
  · exact h.typed _ hmem

/-- A run that is done. -/
theorem release (h : Sound s) (hrun : s.runs.lookup n = some run)
    (hcount : controller.inFlight = s.controller.inFlight - placeOf (some run)) :
    Sound { s with controller, runs := s.runs.filter (·.1 != n) } :=
  ⟨h.fresh, fun p hp => h.typed p (List.mem_of_mem_filter hp), h.numbered.release hrun hcount⟩

/-- What a run that gets to go makes of the session: nothing if there is none, and else it waits under its
number or is done. -/
theorem poll_cases (h : Sound s) (n : Nat) (report : Option Report) :
    (s.poll n report).1 = s ∨
    (∃ run run' : Run, s.runs.lookup n = some run ∧ run'.Typed ∧
      placeOf (some run') = placeOf (some run) ∧
      (s.poll n report).1 = { s with runs := replaced n run' s.runs }) ∨
    ∃ (run : Run) (controller : Controller σ), s.runs.lookup n = some run ∧
      controller.credential = s.controller.credential ∧
      controller.inFlight = s.controller.inFlight - placeOf (some run) ∧
      (s.poll n report).1 = { s with controller, runs := s.runs.filter (·.1 != n) } := by
  cases hlookup : s.runs.lookup n with
  | none => exact .inl (congrArg Prod.fst (poll_none hlookup report).1)
  | some run =>
      cases h.typed_of_lookup hlookup with
      | ignored =>
          rw [(poll_ignored hlookup report).1]
          exact .inr (.inr ⟨_, s.controller, rfl, rfl, rfl, rfl⟩)
      | accepted code key =>
          cases report with
          | none =>
              rw [(poll_accepted_none hlookup).1]
              exact .inr (.inl ⟨_, _, rfl, .waiting code key, rfl, rfl⟩)
          | some rep =>
              rw [(poll_accepted_some hlookup rep).1]
              exact .inr (.inr ⟨_, (s.controller.finish _ _).1, rfl, rfl, rfl, rfl⟩)
      | waiting code key =>
          cases report with
          | none =>
              rw [(poll_waiting_none hlookup).1]
              exact .inr (.inl ⟨_, _, rfl, .waiting code key, rfl, rfl⟩)
          | some rep =>
              rw [(poll_waiting_some hlookup rep).1]
              exact .inr (.inr ⟨_, (s.controller.finish _ _).1, rfl, rfl, rfl, rfl⟩)

theorem poll (h : Sound s) (n : Nat) (report : Option Report) : Sound (s.poll n report).1 := by
  rcases h.poll_cases n report with hsame | ⟨run, run', hrun, htyped, hplace, hsame⟩ |
    ⟨run, controller, hrun, -, hcount, hsame⟩
  · rw [hsame]
    exact h
  · rw [hsame]
    exact h.replace hrun htyped hplace
  · rw [hsame]
    exact h.release hrun hcount

/-- A run that gets to go leaves the others and the key alone. -/
theorem poll_others (h : Sound s) (n : Nat) (report : Option Report) :
    (∀ m, m ≠ n → (s.poll n report).1.runs.lookup m = s.runs.lookup m) ∧
      (s.poll n report).1.controller.credential = s.controller.credential := by
  rcases h.poll_cases n report with hsame | ⟨run, run', -, -, -, hsame⟩ |
    ⟨run, controller, -, hkey, -, hsame⟩
  · rw [hsame]
    exact ⟨fun _ _ => rfl, rfl⟩
  · rw [hsame]
    refine ⟨fun m hm => ?_, rfl⟩
    rw [lookup_replaced, if_neg hm]
  · rw [hsame]
    refine ⟨fun m hm => ?_, hkey⟩
    rw [lookup_filter_ne, if_neg hm]

/-- A run that gets to go is done if there is a report on it, or if there is nothing to report on. -/
theorem runs_poll (h : Sound s) {report : Option Report}
    (hreport : ∀ run r, s.runs.lookup n = some run → run.request? = some r → report.isSome) :
    (s.poll n report).1.runs = s.runs.filter (·.1 != n) := by
  cases hlookup : s.runs.lookup n with
  | none => rw [(poll_none hlookup report).1, filter_ne_of_not_mem (lookup_eq_none_iff.mp hlookup)]
  | some run =>
      cases h.typed_of_lookup hlookup with
      | ignored => rw [(poll_ignored hlookup report).1]
      | accepted code key =>
          obtain ⟨rep, rfl⟩ := Option.isSome_iff_exists.mp (hreport _ _ hlookup rfl)
          rw [(poll_accepted_some hlookup rep).1]
      | waiting code key =>
          obtain ⟨rep, rfl⟩ := Option.isSome_iff_exists.mp (hreport _ _ hlookup rfl)
          rw [(poll_waiting_some hlookup rep).1]

theorem takeInput (store : Store σ) (h : Sound s) (i : Input) : Sound (s.takeInput store i).1 := by
  have hfresh : Text.Fresh (s.takeInput store i).1.program := by
    rw [program_takeInput]
    exact Input.fresh_amend h.fresh i
  by_cases hi : ∃ t, i = .run t
  · obtain ⟨t, rfl⟩ := hi
    simp only [Session.takeInput, startRun, Controller.start]
    split
    · exact h.start (.accepted _ _) rfl
    · exact h.start .ignored rfl
  · obtain ⟨hruns, hnext, hcount, -⟩ := Told.quiet_takeInput store s (i := i) fun t ht => hi ⟨t, ht⟩
    exact ⟨hfresh, hruns ▸ h.typed, h.numbered.congr hruns hnext hcount⟩

theorem step (store : Store σ) (h : Sound s) (st : Step) : Sound (s.step store st).1 := by
  cases st with
  | line text =>
      rw [Session.step]
      split
      · exact h
      · exact h.takeInput store _
  | ended => exact ⟨h.fresh, h.typed, h.numbered.congr rfl rfl rfl⟩
  | poll n report => exact h.poll n report

/-- When a run is done, the output has its output and nothing else. -/
theorem onOutput_poll (h : Sound s) (hrun : s.runs.lookup n = some run) {report : Option Report}
    {output : String} (houtput : run.output? report = some output) :
    onOutput (lines (s.poll n report).2) = [ConsoleStyle.playground.outputText output] := by
  cases h.typed_of_lookup hrun with
  | ignored => cases houtput
  | accepted code key =>
      cases report with
      | none => cases houtput
      | some rep =>
          obtain rfl := Option.some.inj houtput
          rw [(poll_accepted_some hrun rep).1]
          exact onOutput_shown code key rep.outcome
  | waiting code key =>
      cases report with
      | none => cases houtput
      | some rep =>
          obtain rfl := Option.some.inj houtput
          rw [(poll_waiting_some hrun rep).1]
          exact onOutput_shown code key rep.outcome

end Sound

theorem sound_run (store : Store σ) (credential : Credential σ) (steps : List Step) :
    (Chronicle.run store credential steps).session.Sound := by
  induction steps using List.reverseRecOn with
  | nil => exact .new credential
  | append_singleton steps s ih =>
      rw [Chronicle.run_append_one]
      exact ih.step store s

end Session

end Relay

import Relay.Console
import Relay.Proofs.Controller.Exclusion

/-!
# Clearing interferes with nothing

Clearing is for the surface only: the controller never looks at what it has shown.  So two schedules
of steps that differ in nothing but clearings go alike, step by step, and all that differs is what
the surface shows in the meantime.  A run of typed code that completes writes both the output area
and the status anew, and from then on, as long as nothing is cleared, the surfaces are alike too
whatever was on them before (`Screen.agrees_concluded`).

`unclear` leaves a schedule without its clearings, and two schedules are compared by it.
-/

namespace Relay

/-- The steps without the clearings. -/
def unclear (steps : List Step) : List Step := steps.filter (· ≠ .clear)

theorem unclear_append (steps more : List Step) :
    unclear (steps ++ more) = unclear steps ++ unclear more := by
  simp [unclear]

theorem unclear_cons_of_ne {s : Step} (h : s ≠ .clear) (steps : List Step) :
    unclear (s :: steps) = s :: unclear steps :=
  List.filter_cons_of_pos (by simpa using h)

theorem unclear_of_not_mem {steps : List Step} (h : .clear ∉ steps) : unclear steps = steps := by
  apply List.filter_eq_self.mpr
  intro s hs
  simpa using fun heq : s = .clear => h (heq ▸ hs)

/-- The request that an effect hands to the executor. -/
def Effect.request? : Effect → Option Request
  | .invoke r => some r
  | .surface _ => none

/-- The event by which an effect tells the trigger something or leads the user to the key. -/
def Effect.control? : Effect → Option Event
  | .surface (.enableTrigger enabled) => some (.enableTrigger enabled)
  | .surface .focusKey => some .focusKey
  | _ => none

/-- What a step met, what it answered and did, and what it left behind. -/
structure Account (σ : Type) where
  step : Step
  /-- Whether the trigger was taken, if the step pulled one. -/
  taken : Option Bool
  answer : Answer
  effects : List Effect
  inFlight : Nat
  credential : Credential σ
  deriving DecidableEq, Repr

namespace Desk

variable {σ : Type}

/-- The desk after steps in their order. -/
def after (store : Store σ) (d : Desk σ) (steps : List Step) : Desk σ :=
  steps.foldl (fun d s => (d.step store s).1) d

/-- All that steps do, in order. -/
def effects (store : Store σ) : Desk σ → List Step → List Effect
  | _, [] => []
  | d, s :: steps => (d.step store s).2.2 ++ effects store (d.step store s).1 steps

/-- The account of one step. -/
def account (store : Store σ) (d : Desk σ) (s : Step) : Account σ :=
  ⟨s, (d.triggered s).map d.controller.accepts, (d.step store s).2.1, (d.step store s).2.2,
    (d.step store s).1.controller.inFlight, (d.step store s).1.controller.credential⟩

/-- The accounts of the steps that are no clearings. -/
def accounts (store : Store σ) : Desk σ → List Step → List (Account σ)
  | _, [] => []
  | d, s :: steps =>
    (if s = .clear then [] else [d.account store s]) ++ accounts store (d.step store s).1 steps

/-- A run of typed code completes after the last clearing. -/
def Renews (store : Store σ) (d : Desk σ) (steps : List Step) : Prop :=
  ∃ before name after c r o code, steps = before ++ .poll name :: after ∧ .clear ∉ after ∧
    (d.after store before).finishing (.poll name) = some (c, r, o) ∧ r.origin = .typed code

/-! ## Step by step -/

theorem after_unclear (store : Store σ) (d : Desk σ) (steps : List Step) :
    d.after store (unclear steps) = d.after store steps := by
  induction steps generalizing d with
  | nil => rfl
  | cons s steps ih =>
      by_cases hs : s = .clear
      · subst hs
        exact ih d
      · rw [unclear_cons_of_ne hs]
        exact ih (d.step store s).1

theorem accounts_unclear (store : Store σ) (d : Desk σ) (steps : List Step) :
    d.accounts store (unclear steps) = d.accounts store steps := by
  induction steps generalizing d with
  | nil => rfl
  | cons s steps ih =>
      by_cases hs : s = .clear
      · subst hs
        exact ih d
      · rw [unclear_cons_of_ne hs, accounts, accounts, ih]

/-- What no clearing does is all in the accounts. -/
theorem filterMap_effects {α : Type} {f : Effect → Option α}
    (hf : (Controller.clear.map .surface).filterMap f = []) (store : Store σ) (d : Desk σ)
    (steps : List Step) :
    (d.effects store steps).filterMap f =
      ((d.accounts store steps).flatMap (·.effects)).filterMap f := by
  induction steps generalizing d with
  | nil => rfl
  | cons s steps ih =>
      rw [effects, accounts, List.filterMap_append, List.flatMap_append, List.filterMap_append, ih]
      by_cases hs : s = .clear
      · subst hs
        have hstep : (d.step store .clear).2.2.filterMap f = [] := hf
        rw [hstep, if_pos rfl]
        rfl
      · rw [if_neg hs, List.flatMap_singleton]
        rfl

theorem effects_append (store : Store σ) (d : Desk σ) (steps more : List Step) :
    d.effects store (steps ++ more) =
      d.effects store steps ++ (d.after store steps).effects store more := by
  induction steps generalizing d with
  | nil => rfl
  | cons s steps ih =>
      show _ ++ effects store _ (steps ++ more) = (_ ++ effects store _ steps) ++ _
      rw [ih, List.append_assoc]
      rfl

end Desk

/-! ## What is on the surface -/

theorem Effect.events_append (es fs : List Effect) :
    events (es ++ fs) = events es ++ events fs := by
  simp [events]

theorem Effect.events_surface (es : List Event) : events (es.map .surface) = es := by
  simp [events, List.filterMap_map]

namespace Screen

/-- Two surfaces show the same output and the same status. -/
def Agrees (screen screen' : Screen) : Prop :=
  screen.output = screen'.output ∧ screen.status = screen'.status

theorem Agrees.symm {screen screen' : Screen} (h : screen.Agrees screen') :
    screen'.Agrees screen :=
  ⟨h.1.symm, h.2.symm⟩

theorem Agrees.display {screen screen' : Screen} (h : screen.Agrees screen') (e : Event) :
    (screen.display e).Agrees (screen'.display e) := by
  obtain ⟨houtput, hstatus⟩ := h
  cases e with
  | status s => exact ⟨houtput, rfl⟩
  | setOutput text => exact ⟨rfl, hstatus⟩
  | appendOutput text => exact ⟨congrArg (· ++ text) houtput, hstatus⟩
  | enableTrigger enabled => exact ⟨houtput, hstatus⟩
  | focusKey => exact ⟨houtput, hstatus⟩

theorem Agrees.displayAll {screen screen' : Screen} (h : screen.Agrees screen')
    (events : List Event) : (screen.displayAll events).Agrees (screen'.displayAll events) := by
  induction events generalizing screen screen' with
  | nil => exact h
  | cons e events ih => exact ih (h.display e)

/-- The end of a run of typed code makes any two surfaces agree. -/
theorem agrees_concluded {r : Request} {code : String} (hr : r.origin = .typed code)
    (screen screen' : Screen) (o : Outcome) (left : Nat) :
    (screen.displayAll (r.concluded o left)).Agrees (screen'.displayAll (r.concluded o left)) := by
  have hshown : r.concluded o left =
      [.status o.playground.status, .setOutput o.playground.output] ++
        ((if o.playground.focusKey then [.focusKey] else []) ++
          if left = 0 then [.enableTrigger true] else []) := by
    simp [Request.concluded, Controller.shown, hr]
  have hanew : ∀ status text, (screen.displayAll [.status status, .setOutput text]).Agrees
      (screen'.displayAll [.status status, .setOutput text]) := fun _ _ => ⟨rfl, rfl⟩
  rw [hshown]
  simp only [displayAll_append]
  exact ((hanew _ _).displayAll _).displayAll _

end Screen

namespace Desk

variable {σ : Type}

/-- A step that ends a run of typed code shows nothing but that end. -/
theorem events_of_finishing (store : Store σ) {d : Desk σ} {name : String} {c : Controller σ}
    {r : Request} {o : Outcome} {code : String}
    (h : d.finishing (.poll name) = some (c, r, o)) (hr : r.origin = .typed code) :
    Effect.events (d.step store (.poll name)).2.2 =
      r.concluded o (d.controller.inFlight - 1) := by
  obtain ⟨_, rep, hname, hrep, rfl, ⟨-, hrun | hrun⟩ | ⟨-, t, op, f, -, -, rfl⟩⟩ :=
    finishing_cases h
  · obtain rfl := Step.poll.inj hname
    -- the request goes out in the same poll, which the surface does not show
    have hput : (put name (.waiting r) d.runs).lookup name = some (.waiting r) := by simp
    have hpoll := poll_accepted hrun
      (poll_waiting_some (d := { d with runs := put name (.waiting r) d.runs }) hput hrep)
    show Effect.events (d.poll name).2.2 = _
    rw [hpoll]
    exact Effect.events_surface _
  · obtain rfl := Step.poll.inj hname
    show Effect.events (d.poll name).2.2 = _
    rw [poll_waiting_some hrun hrep]
    exact Effect.events_surface _
  · cases hr

/-- Two schedules are the same from the completion of a run of typed code on, and before it they
differ only in clearings, of which the one has none after `before`.  Then the surfaces agree in the
end. -/
theorem agrees_of_finishing (store : Store σ) (d : Desk σ) {before before' mid later : List Step}
    (hmid : .clear ∉ mid) (hbefore : unclear before' = unclear before ++ mid) {name : String}
    {c : Controller σ} {r : Request} {o : Outcome} {code : String}
    (h : (d.after store before').finishing (.poll name) = some (c, r, o))
    (hr : r.origin = .typed code) (screen screen' : Screen) :
    (screen.displayAll (Effect.events
        (d.effects store (before ++ (mid ++ .poll name :: later))))).Agrees
      (screen'.displayAll (Effect.events (d.effects store (before' ++ .poll name :: later)))) := by
  have hdesk : d.after store (before ++ mid) = d.after store before' := by
    rw [← after_unclear, unclear_append, unclear_of_not_mem hmid, ← hbefore, after_unclear]
  rw [← List.append_assoc, effects_append store d (before ++ mid), effects_append store d before',
    hdesk, effects]
  simp only [Effect.events_append, events_of_finishing store h hr, Screen.displayAll_append]
  exact (Screen.agrees_concluded hr _ _ _ _).displayAll _

/-- Where a run of typed code completes after the last clearing of either schedule, the surfaces
agree in the end. -/
theorem Renews.agrees {store : Store σ} {d : Desk σ} {steps steps' : List Step}
    (h : d.Renews store steps) (h' : d.Renews store steps') (hsame : unclear steps = unclear steps')
    (screen screen' : Screen) :
    (screen.displayAll (Effect.events (d.effects store steps))).Agrees
      (screen'.displayAll (Effect.events (d.effects store steps'))) := by
  obtain ⟨before, name, later, c, r, o, code, rfl, hlater, hfinishing, hr⟩ := h
  obtain ⟨before', name', later', c', r', o', code', rfl, hlater', hfinishing', hr'⟩ := h'
  have hrest : .clear ∉ .poll name :: later := by simpa using hlater
  have hrest' : .clear ∉ .poll name' :: later' := by simpa using hlater'
  rw [unclear_append, unclear_append, unclear_of_not_mem hrest, unclear_of_not_mem hrest'] at hsame
  -- one of the completions comes no earlier than the other, and from it on the schedules are one
  rcases List.append_eq_append_iff.mp hsame with ⟨mid, hbefore, hmid⟩ | ⟨mid, hbefore, hmid⟩
  · rw [hmid] at hrest ⊢
    have hclear : .clear ∉ mid := fun hc => hrest (List.mem_append_left _ hc)
    exact agrees_of_finishing store d hclear hbefore hfinishing' hr' screen screen'
  · rw [hmid] at hrest' ⊢
    have hclear : .clear ∉ mid := fun hc => hrest' (List.mem_append_left _ hc)
    exact (agrees_of_finishing store d hclear hbefore hfinishing hr screen' screen).symm

end Desk

/-- Two schedules that differ only in clearings, at any desk: every other step finds its trigger
taken in both or in neither, answers and does the same, and leaves the same number of runs in flight
and the same key; the same requests go to the executor, and the trigger is told and the user led to
the key in the same order.  If a run of typed code completes after the last clearing of each, the
output and the status are the same in the end, whatever the surfaces showed at first. -/
theorem clearing_interferes_with_nothing {σ : Type} (store : Store σ) (d : Desk σ)
    (steps steps' : List Step) (hsame : unclear steps = unclear steps') :
    d.accounts store steps = d.accounts store steps' ∧
      d.after store steps = d.after store steps' ∧
      (d.effects store steps).filterMap Effect.request? =
        (d.effects store steps').filterMap Effect.request? ∧
      (d.effects store steps).filterMap Effect.control? =
        (d.effects store steps').filterMap Effect.control? ∧
      ∀ screen screen' : Screen, d.Renews store steps → d.Renews store steps' →
        (screen.displayAll (Effect.events (d.effects store steps))).output =
            (screen'.displayAll (Effect.events (d.effects store steps'))).output ∧
          (screen.displayAll (Effect.events (d.effects store steps))).status =
            (screen'.displayAll (Effect.events (d.effects store steps'))).status := by
  have haccounts : d.accounts store steps = d.accounts store steps' := by
    rw [← Desk.accounts_unclear, hsame, Desk.accounts_unclear]
  refine ⟨haccounts, ?_, ?_, ?_, ?_⟩
  · rw [← Desk.after_unclear, hsame, Desk.after_unclear]
  · rw [Desk.filterMap_effects rfl, Desk.filterMap_effects rfl, haccounts]
  · rw [Desk.filterMap_effects rfl, Desk.filterMap_effects rfl, haccounts]
  · intro screen screen' h h'
    exact h.agrees h' hsame screen screen'

/-- The surface is cleared before a run in the one schedule and between its start and its end in the
other. -/
theorem clearing_interferes_with_nothing_overlap :
    let d : Desk Entries := .new ⟨"", []⟩
    let steps : List Step := [.clear, .runCode "a" .button "1", .report "a" .blank, .poll "a"]
    let steps' : List Step := [.runCode "a" .button "1", .clear, .report "a" .blank, .poll "a"]
    unclear steps = unclear steps' ∧
      d.accounts memoryStore steps = d.accounts memoryStore steps' ∧
      (Screen.blank.displayAll (Effect.events (d.effects memoryStore steps))).output =
        (Screen.blank.displayAll (Effect.events (d.effects memoryStore steps'))).output := by
  intro d steps steps'
  have hsame : unclear steps = unclear steps' := by decide +kernel
  have hfinishing : (d.after memoryStore (steps.take 3)).finishing (.poll "a") =
      some (⟨⟨"", []⟩, 1⟩, .typed "1" none, Report.blank.outcome) := by decide +kernel
  have hfinishing' : (d.after memoryStore (steps'.take 3)).finishing (.poll "a") =
      some (⟨⟨"", []⟩, 1⟩, .typed "1" none, Report.blank.outcome) := by decide +kernel
  obtain ⟨haccounts, -, -, -, hscreen⟩ :=
    clearing_interferes_with_nothing memoryStore d steps steps' hsame
  refine ⟨hsame, haccounts, ?_⟩
  exact (hscreen .blank .blank
    ⟨steps.take 3, "a", [], _, _, _, "1", rfl, List.not_mem_nil, hfinishing, rfl⟩
    ⟨steps'.take 3, "a", [], _, _, _, "1", rfl, List.not_mem_nil, hfinishing', rfl⟩).1

end Relay

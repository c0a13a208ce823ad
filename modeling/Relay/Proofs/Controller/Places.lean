import Relay.Proofs.Controller.Exclusion
import Relay.Proofs.Keyed

/-!
# Places in flight

A run claims its place among those in flight and gives it back when it completes, and in no other
way.  So a run that is given up in between takes its place with it: `Accounted` says that the
controller's number is that of the places held by the runs at the desk and of those that were lost
in this way.  When the desk holds no run any more, only the lost places are left, and the trigger
is enabled exactly when there are none.

Giving up a run that has no place costs nothing: an operation on a file that never got to go, or
code whose trigger was disabled.
-/

namespace Relay

/-- The run has its place among those in flight. -/
def Run.hasPlace : Run → Bool
  | .accepted _ | .waiting _ => true
  | .ignored | .planned _ _ _ => false

/-! ## Places under a key -/

section Places

variable {κ : Type} [DecidableEq κ] {runs : List (κ × Run)}

/-- How many of the runs have their place. -/
def places (runs : List (κ × Run)) : Nat := runs.countP (·.2.hasPlace)

/-- One, if there is a run and it has its place. -/
def placeOf (run : Option Run) : Nat := (run.any Run.hasPlace).toNat

/-- The places are those of the other runs and that of the run under the key. -/
theorem places_eq_filter_ne (h : (runs.map (·.1)).Nodup) (key : κ) :
    places runs = places (runs.filter (·.1 != key)) + placeOf (runs.lookup key) := by
  induction runs with
  | nil => rfl
  | cons p runs ih =>
      obtain ⟨first, run⟩ := p
      obtain ⟨hfirst, hrest⟩ := List.nodup_cons.mp h
      by_cases hk : first = key
      · subst hk
        rw [List.filter_cons_of_neg (by simp), filter_ne_of_not_mem hfirst]
        cases hr : run.hasPlace <;> simp [places, placeOf, hr]
      · have hb : (key == first) = false := beq_eq_false_iff_ne.mpr (Ne.symm hk)
        have hlookup : ((first, run) :: runs).lookup key = runs.lookup key := by
          rw [List.lookup_cons, hb]
        have hrest := ih hrest
        simp only [places] at hrest ⊢
        rw [List.filter_cons_of_pos (by simpa using hk), hlookup, List.countP_cons,
          List.countP_cons, hrest]
        omega

omit [DecidableEq κ] in
theorem places_cons (key : κ) (run : Run) (runs : List (κ × Run)) :
    places ((key, run) :: runs) = places runs + placeOf (some run) := by
  cases hr : run.hasPlace <;> simp [places, placeOf, hr]

end Places

namespace Desk

variable {σ : Type}

/-- The run that a step gives up: the one that is dropped, or the one whose name is used again. -/
def givenUp (d : Desk σ) : Step → Option Run
  | .drop name | .runCode name _ _ | .runFile name _ _ _ => d.runs.lookup name
  | .poll _ | .report _ _ | .clear | .setCredential _ => none

/-- How many places are lost by steps, because a run that has one is given up. -/
def lost (store : Store σ) : Desk σ → List Step → Nat
  | _, [] => 0
  | d, s :: steps => placeOf (d.givenUp s) + lost store (d.step store s).1 steps

theorem lost_append (store : Store σ) (d : Desk σ) (steps more : List Step) :
    lost store d (steps ++ more) =
      lost store d steps + lost store (steps.foldl (fun d s => (d.step store s).1) d) more := by
  induction steps generalizing d with
  | nil => simp [lost]
  | cons s steps ih => rw [List.cons_append, lost, ih, lost, List.foldl_cons, Nat.add_assoc]

variable {runs : List (String × Run)}

theorem nodup_put (h : (runs.map (·.1)).Nodup) (name : String) (run : Run) :
    ((put name run runs).map (·.1)).Nodup :=
  List.nodup_cons.mpr ⟨by simp [without], nodup_filter_ne h name⟩

theorem places_without (h : (runs.map (·.1)).Nodup) (name : String) :
    places runs = places (without name runs) + placeOf (runs.lookup name) :=
  places_eq_filter_ne h name

theorem places_put (name : String) (run : Run) (runs : List (String × Run)) :
    places (put name run runs) = places (without name runs) + placeOf (some run) :=
  places_cons name run (without name runs)

end Desk

/-! ## Every place is accounted for -/

/-- The places in flight are those of the runs at the desk and `k` that were lost. -/
structure Accounted {σ : Type} (d : Desk σ) (k : Nat) : Prop where
  names : (d.runs.map (·.1)).Nodup
  count : d.controller.inFlight = places d.runs + k

namespace Accounted

open Desk (without)

variable {σ : Type} {d : Desk σ} {k : Nat}

/-- A run put under a name, with its place claimed if it has one, ousts the one that stood there. -/
theorem put (h : Accounted d k) {c : Controller σ} {name : String} {run : Run}
    (hcount : c.inFlight = d.controller.inFlight + placeOf (some run))
    (reports : List (String × Report)) :
    Accounted ⟨c, Desk.put name run d.runs, reports⟩ (k + placeOf (d.runs.lookup name)) := by
  refine ⟨Desk.nodup_put h.names name run, ?_⟩
  have hold := h.count
  rw [Desk.places_without h.names name] at hold
  show c.inFlight = places (Desk.put name run d.runs) + _
  rw [Desk.places_put, hcount]
  omega

/-- A run that stays under its name with the place that it has. -/
theorem replace (h : Accounted d k) {c : Controller σ} {name : String} {run run' : Run}
    (hrun : d.runs.lookup name = some run)
    (hcount : c.inFlight + placeOf (some run) = d.controller.inFlight + placeOf (some run')) :
    Accounted ⟨c, Desk.put name run' d.runs, d.reports⟩ k := by
  refine ⟨Desk.nodup_put h.names name run', ?_⟩
  have hold := h.count
  rw [Desk.places_without h.names name, hrun] at hold
  show c.inFlight = places (Desk.put name run' d.runs) + k
  rw [Desk.places_put]
  omega

/-- A run that leaves its name and gives its place back. -/
theorem release (h : Accounted d k) {c : Controller σ} {name : String} {run : Run}
    (hrun : d.runs.lookup name = some run)
    (hcount : c.inFlight = d.controller.inFlight - placeOf (some run))
    (reports : List (String × Report)) :
    Accounted ⟨c, without name d.runs, reports⟩ k := by
  refine ⟨nodup_filter_ne h.names name, ?_⟩
  have hold := h.count
  rw [Desk.places_without h.names name, hrun] at hold
  show c.inFlight = places (without name d.runs) + k
  omega

/-- A run that is dropped takes its place with it. -/
theorem drop (h : Accounted d k) (name : String) :
    Accounted { d with runs := without name d.runs } (k + placeOf (d.runs.lookup name)) := by
  refine ⟨nodup_filter_ne h.names name, ?_⟩
  have hold := h.count
  rw [Desk.places_without h.names name] at hold
  show d.controller.inFlight = places (without name d.runs) + _
  omega

/-! ### A run gets to go -/

theorem poll_waiting (h : Accounted d k) {name : String} {r : Request}
    (hrun : d.runs.lookup name = some (.waiting r)) : Accounted (d.poll name).1 k := by
  cases hrep : d.reports.lookup name with
  | none =>
      rw [Desk.poll_waiting_none hrun hrep]
      exact h.replace hrun rfl
  | some rep =>
      rw [Desk.poll_waiting_some hrun hrep]
      exact h.release hrun rfl _

theorem poll_accepted (h : Accounted d k) {name : String} {r : Request}
    (hrun : d.runs.lookup name = some (.accepted r)) : Accounted (d.poll name).1 k := by
  have hinvoked : Accounted { d with runs := Desk.put name (.waiting r) d.runs } k :=
    h.replace hrun rfl
  rw [Desk.poll_accepted hrun rfl]
  exact hinvoked.poll_waiting (r := r) (by simp)

theorem poll_planned (h : Accounted d k) {name : String} {t : Trigger} {o : Operation}
    {f : SourceFile} (hrun : d.runs.lookup name = some (.planned t o f)) :
    Accounted (d.poll name).1 k := by
  cases hc : d.controller.accepts t with
  | false =>
      rw [Desk.poll_planned_busy hrun hc]
      exact h.release hrun rfl _
  | true =>
      have hclaimed : Accounted
          ⟨d.controller.claim, Desk.put name (.accepted (.onFile f o)) d.runs, d.reports⟩ k :=
        h.replace hrun rfl
      rw [Desk.poll_planned hrun hc rfl]
      exact hclaimed.poll_accepted (r := .onFile f o) (by simp)

theorem poll (h : Accounted d k) (name : String) : Accounted (d.poll name).1 k := by
  cases hrun : d.runs.lookup name with
  | none =>
      rw [Desk.poll_none hrun]
      exact h
  | some run =>
      cases run with
      | ignored =>
          rw [Desk.poll_ignored hrun]
          exact h.release hrun rfl _
      | accepted r => exact h.poll_accepted hrun
      | planned t o f => exact h.poll_planned hrun
      | waiting r => exact h.poll_waiting hrun

/-! ### Every step, every run -/

/-- A step loses the place of the run that it gives up, and no other. -/
theorem step (store : Store σ) (h : Accounted d k) (s : Step) :
    Accounted (d.step store s).1 (k + placeOf (d.givenUp s)) := by
  cases s with
  | runCode name t code =>
      cases hc : d.controller.accepts t with
      | false =>
          rw [Desk.step_runCode_busy store hc]
          exact h.put rfl _
      | true =>
          rw [Desk.step_runCode store hc]
          exact h.put rfl _
  | runFile name t o f =>
      have hcount : d.controller.inFlight =
          d.controller.inFlight + placeOf (some (.planned t o f)) := rfl
      exact h.put hcount _
  | poll name => exact h.poll name
  | report name rep => exact ⟨h.names, h.count⟩
  | drop name => exact h.drop name
  | clear => exact h
  | setCredential value => exact ⟨h.names, h.count⟩

theorem run (store : Store σ) (h : Accounted d k) (steps : List Step) :
    Accounted (steps.foldl (fun d s => (d.step store s).1) d) (k + Desk.lost store d steps) := by
  induction steps generalizing d k with
  | nil => exact h
  | cons s steps ih =>
      rw [List.foldl_cons, Desk.lost, ← Nat.add_assoc]
      exact ih (h.step store s)

theorem new (credential : Credential σ) : Accounted (Desk.new credential) 0 := ⟨.nil, rfl⟩

end Accounted

/-! ## What the trigger is left with -/

/-- After every sequence of steps, the places in flight are those of the runs still at the desk and
those that were lost. -/
theorem inFlight_eq_places_add_lost {σ : Type} (store : Store σ) (credential : Credential σ)
    (steps : List Step) :
    (Ledger.run store credential steps).desk.controller.inFlight =
      places (Ledger.run store credential steps).desk.runs +
        Desk.lost store (.new credential) steps := by
  have h := ((Accounted.new credential).run store steps).count
  rwa [Nat.zero_add, ← Ledger.desk_run] at h

/-- A lost place is lost for good. -/
theorem inFlight_ne_zero_of_lost {σ : Type} (store : Store σ) (credential : Credential σ)
    {steps : List Step} (h : Desk.lost store (.new credential) steps ≠ 0) (more : List Step) :
    (Ledger.run store credential (steps ++ more)).desk.controller.inFlight ≠ 0 := by
  rw [inFlight_eq_places_add_lost, Desk.lost_append]
  omega

/-- Whenever every run that was ever asked for has ended or has been given up, the number in flight
is that of the runs given up between their acceptance and their end.  If there are none, the
controller is idle, the trigger was last told that it is enabled, and the button starts a run; if
there are any, it is none of this, and never again will be. -/
theorem trigger_returns_unless_lost {σ : Type} (store : Store σ) (credential : Credential σ)
    (steps : List Step) (hruns : (Ledger.run store credential steps).desk.runs = []) :
    let l := Ledger.run store credential steps
    let lost := Desk.lost store (.new credential) steps
    l.desk.controller.inFlight = lost ∧
      (l.desk.controller.state = .idle ↔ lost = 0) ∧
      (Log.screen l.log).trigger = some (lost == 0) ∧
      (∀ s, l.desk.triggered s = some .button →
        ((∃ n r, .accepted n .button r ∈ l.added store s) ↔ lost = 0)) ∧
      (lost ≠ 0 → ∀ more,
        let later := Ledger.run store credential (steps ++ more)
        later.desk.controller.state = .running ∧ (Log.screen later.log).trigger = some false) := by
  intro l lost
  have h : Tracks l := tracks_run store credential steps
  have hcount : l.desk.controller.inFlight = lost := by
    have hplaces := inFlight_eq_places_add_lost store credential steps
    rwa [hruns, show places [] = 0 from rfl, Nat.zero_add] at hplaces
  refine ⟨hcount, ?_, ?_, ?_, ?_⟩
  · rw [Controller.state, hcount]
    by_cases hzero : lost = 0 <;> simp [hzero]
  · rw [← hcount]
    exact h.written.trigger
  · intro s ht
    rw [(h.decision store ht).1, hcount]
    simp
  · intro hlost more later
    have hbusy : later.desk.controller.inFlight ≠ 0 :=
      inFlight_ne_zero_of_lost store credential hlost more
    have htrigger := (tracks_run store credential (steps ++ more)).written.trigger
    refine ⟨by simp [Controller.state, hbusy], ?_⟩
    rw [htrigger]
    exact congrArg some (beq_eq_false_iff_ne.mpr hbusy)

/-- One run ends, one is dropped without a place, and one with it: the button stays disabled. -/
theorem trigger_returns_unless_lost_dropped :
    let steps : List Step := [.runCode "a" .button "1", .report "a" .blank, .poll "a",
      .runCode "b" .button "2", .runCode "c" .button "3", .drop "c", .drop "b"]
    let l := Ledger.run memoryStore ⟨"", []⟩ steps
    l.desk.runs = [] ∧ l.desk.controller.inFlight = 1 ∧ (Log.screen l.log).trigger = some false := by
  intro steps l
  have hruns : l.desk.runs = [] := by decide
  have hlost : Desk.lost memoryStore (.new ⟨"", []⟩) steps = 1 := by decide
  obtain ⟨hcount, -, htrigger, -⟩ := trigger_returns_unless_lost memoryStore ⟨"", []⟩ steps hruns
  rw [hlost] at hcount htrigger
  exact ⟨hruns, hcount, htrigger⟩

/-- It is not so that the trigger comes back whenever no run is left: one that is dropped as soon
as it is accepted leaves the controller running, and the next press of the button is ignored. -/
theorem trigger_lost_by_drop : ¬ ∀ steps : List Step,
    let l := Ledger.run memoryStore ⟨"", []⟩ steps
    l.desk.runs = [] → l.desk.controller.state = .idle ∧ l.desk.controller.inFlight = 0 ∧
      (Log.screen l.log).trigger = some true ∧ l.desk.controller.accepts .button = true := by
  intro h
  obtain ⟨hidle, -⟩ := h [.runCode "a" .button "1", .drop "a"] (by decide)
  exact absurd hidle (by decide)

end Relay

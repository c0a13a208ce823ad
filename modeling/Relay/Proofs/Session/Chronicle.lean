import Relay.Cli.Play
import Relay.Proofs.Controller.Places

/-!
# What becomes of the runs of a session

A session forgets its runs when they are done.  A chronicle is a session together with all that it
did, each deed with the run that got to go, and with marks for its runs: one when a run is accepted,
one when its outcome is rendered.  The marks are read off the sessions before and after a step; they
decide nothing.

`Told` ties the two together: of each run the chronicle tells exactly what the session still holds
of it, and nothing else is in flight.  So when nothing is held any more, every accepted run has been
rendered, and what it wrote is its outcome, once.
-/

namespace Relay.Session

open Cli.Play (lines)

variable {σ : Type}

/-! ## Chronicles -/

/-- What became of a run. -/
inductive Mark where
  | accepted (run : Nat) (request : Request)
  | rendered (run : Nat) (request : Request) (outcome : Outcome)
  deriving DecidableEq, Repr

/-- The run that a mark is about. -/
def Mark.run : Mark → Nat
  | accepted n _ | rendered n _ _ => n

/-- The request that a deed of run `n` hands to the executor. -/
def Deed.call? (n : Nat) : Deed → Option Request
  | write _ => none
  | invoke m r => if m = n then some r else none

/-- The run that was accepted between two sessions. -/
def started (s s' : Session σ) : List Mark :=
  if s'.next = s.next then []
  else
    match s'.runs.lookup s.next with
    | some (.accepted r) => [.accepted s.next r]
    | _ => []

/-- The outcome that a run is rendered with when it gets to go. -/
def rendered (s : Session σ) (n : Nat) (report : Option Report) : List Mark :=
  match s.runs.lookup n with
  | none => []
  | some run =>
    match (s.controller.advance run report).2.1, run.request? with
    | .done (some o), some r => [.rendered n r o]
    | _, _ => []

/-- The marks that a step adds. -/
def marked (store : Store σ) (s : Session σ) (step : Step) : List Mark :=
  match step with
  | .line _ | .ended => started s (s.step store step).1
  | .poll n report => s.rendered n report

/-- The run that a step lets go. -/
def Step.run? : Step → Option Nat
  | .poll n _ => some n
  | .line _ | .ended => none

/-- A session, all that it did, and the marks for its runs, oldest first. -/
structure Chronicle (σ : Type) where
  session : Session σ
  /-- What was done, each time with the run that got to go, if one did. -/
  acts : List (Option Nat × Deed)
  marks : List Mark

namespace Chronicle

/-- A new session, which has done nothing. -/
def new (credential : Credential σ) : Chronicle σ := ⟨.new credential, [], []⟩

/-- The chronicle with one thing more that happened: `who` got to go and did `ds`. -/
def noted (c : Chronicle σ) (s : Session σ) (who : Option Nat) (ds : List Deed) (ms : List Mark) :
    Chronicle σ :=
  ⟨s, c.acts ++ ds.map (who, ·), c.marks ++ ms⟩

/-- The chronicle after a step. -/
def step (store : Store σ) (c : Chronicle σ) (s : Step) : Chronicle σ :=
  c.noted (c.session.step store s).1 s.run? (c.session.step store s).2 (c.session.marked store s)

/-- The chronicle after steps in their order. -/
def run (store : Store σ) (credential : Credential σ) (steps : List Step) : Chronicle σ :=
  steps.foldl (step store) (new credential)

/-- All that was done. -/
def deeds (c : Chronicle σ) : List Deed := c.acts.map (·.2)

/-- The marks for run `n`, in their order. -/
def course (c : Chronicle σ) (n : Nat) : List Mark := c.marks.filter (·.run == n)

/-- The requests that run `n` handed to the executor. -/
def calls (c : Chronicle σ) (n : Nat) : List Request := c.deeds.filterMap (Deed.call? n)

/-- The lines that were written when run `n` got to go, in their order. -/
def wrote (c : Chronicle σ) (n : Nat) : List Line :=
  lines ((c.acts.filter (·.1 = some n)).map (·.2))

theorem run_append (store : Store σ) (credential : Credential σ) (steps more : List Step) :
    run store credential (steps ++ more) =
      more.foldl (step store) (run store credential steps) := by
  simp [run]

theorem run_append_one (store : Store σ) (credential : Credential σ) (steps : List Step)
    (s : Step) :
    run store credential (steps ++ [s]) = (run store credential steps).step store s :=
  run_append store credential steps [s]

/-- The session of a chronicle is the session that the steps lead to. -/
theorem session_run (store : Store σ) (credential : Credential σ) (steps : List Step) :
    (run store credential steps).session =
      steps.foldl (fun s st => (s.step store st).1) (Session.new credential) := by
  induction steps using List.reverseRecOn with
  | nil => rfl
  | append_singleton steps s ih =>
      rw [run_append_one, List.foldl_append, ← ih]
      rfl

end Chronicle

@[simp] theorem lines_append (ds es : List Deed) : lines (ds ++ es) = lines ds ++ lines es := by
  simp [lines]

namespace Chronicle

variable (c : Chronicle σ) (s : Session σ) (who : Option Nat) (ds : List Deed) (ms : List Mark)

@[simp] theorem session_noted : (c.noted s who ds ms).session = s := rfl

@[simp] theorem marks_noted : (c.noted s who ds ms).marks = c.marks ++ ms := rfl

@[simp] theorem deeds_noted : (c.noted s who ds ms).deeds = c.deeds ++ ds := by
  simp [deeds, noted, Function.comp_def]

@[simp] theorem course_noted (n : Nat) :
    (c.noted s who ds ms).course n = c.course n ++ ms.filter (·.run == n) := by
  simp [course]

@[simp] theorem calls_noted (n : Nat) :
    (c.noted s who ds ms).calls n = c.calls n ++ ds.filterMap (Deed.call? n) := by
  simp [calls]

@[simp] theorem wrote_noted (n : Nat) :
    (c.noted s who ds ms).wrote n = c.wrote n ++ if who = some n then lines ds else [] := by
  by_cases hwho : who = some n
  · simp [wrote, noted, hwho, List.filter_map, Function.comp_def]
  · simp [wrote, noted, hwho, List.filter_map, Function.comp_def, lines]

end Chronicle

/-! ## Runs under their numbers -/

section Numbers

variable {runs : List (Nat × Run)} {n : Nat}

/-- The runs with the one under a number replaced. -/
def replaced (n : Nat) (run : Run) (runs : List (Nat × Run)) : List (Nat × Run) :=
  runs.map fun (m, r) => if m = n then (m, run) else (m, r)

theorem lookup_replaced (n m : Nat) (run : Run) (runs : List (Nat × Run)) :
    (replaced n run runs).lookup m =
      if m = n then (runs.lookup n).map fun _ => run else runs.lookup m := by
  induction runs with
  | nil => simp [replaced]
  | cons p runs ih =>
      obtain ⟨k, r⟩ := p
      have hcons : replaced n run ((k, r) :: runs) =
          (k, if k = n then run else r) :: replaced n run runs := by
        by_cases hk : k = n <;> simp [replaced, hk]
      rw [hcons, lookup_cons_if, lookup_cons_if, lookup_cons_if, ih]
      by_cases hm : m = k
      · subst hm
        by_cases hn : m = n <;> simp [hn]
      · by_cases hn : m = n
        · subst hn
          simp [hm]
        · simp [hm, hn]

theorem lookup_append_one (hn : runs.lookup n = none) (run : Run) (m : Nat) :
    (runs ++ [(n, run)]).lookup m = if m = n then some run else runs.lookup m := by
  rw [List.lookup_append, lookup_cons_if]
  by_cases hm : m = n
  · simp [hm, hn]
  · simp [hm]

theorem map_fst_replaced (n : Nat) (run : Run) (runs : List (Nat × Run)) :
    (replaced n run runs).map (·.1) = runs.map (·.1) := by
  rw [replaced, List.map_map]
  refine List.map_congr_left ?_
  intro p _
  obtain ⟨k, r⟩ := p
  by_cases hk : k = n <;> simp [hk]

theorem filter_ne_replaced (n : Nat) (run : Run) (runs : List (Nat × Run)) :
    (replaced n run runs).filter (·.1 != n) = runs.filter (·.1 != n) := by
  induction runs with
  | nil => rfl
  | cons p runs ih =>
      obtain ⟨k, r⟩ := p
      simp only [replaced] at ih
      by_cases hk : k = n <;> simp [replaced, hk, ih]

theorem lookup_eq_none_iff : runs.lookup n = none ↔ n ∉ runs.map (·.1) := by
  rw [List.lookup_eq_none_iff]
  constructor
  · intro h hmem
    obtain ⟨p, hp, rfl⟩ := List.mem_map.mp hmem
    simpa using h p hp
  · intro h p hp
    have hne : n ≠ p.1 := fun heq => h (heq ▸ List.mem_map_of_mem hp)
    simpa using hne

theorem mem_of_lookup {run : Run} (h : runs.lookup n = some run) : n ∈ runs.map (·.1) := by
  by_contra hnot
  rw [lookup_eq_none_iff.mpr hnot] at h
  cases h

/-- A run that is replaced by one with a place as well leaves the places as they are. -/
theorem places_replaced (h : (runs.map (·.1)).Nodup) {run run' : Run}
    (hrun : runs.lookup n = some run) (hplace : placeOf (some run') = placeOf (some run)) :
    places (replaced n run' runs) = places runs := by
  have hnew : ((replaced n run' runs).map (·.1)).Nodup := by rwa [map_fst_replaced]
  rw [places_eq_filter_ne hnew n, places_eq_filter_ne h n, filter_ne_replaced, lookup_replaced,
    if_pos rfl, hrun, Option.map_some, hplace]

end Numbers

/-! ## What a poll does -/

theorem showEvents_append (es fs : List Event) :
    showEvents (es ++ fs) = showEvents es ++ showEvents fs := by
  simp [showEvents, ConsoleStyle.shownAll]

theorem deeds_surface (n : Nat) (es : List Event) : deeds n (es.map .surface) = showEvents es := by
  simp [deeds, showEvents, ConsoleStyle.shownAll, List.flatMap_map, List.map_flatMap]

/-- The end of a run shows its outcome; the trigger is nothing that a console shows. -/
theorem showEvents_concluded (r : Request) (o : Outcome) (left : Nat) :
    showEvents (r.concluded o left) = showEvents (Controller.shown r o) := by
  rw [Request.concluded, showEvents_append]
  split <;> simp [showEvents, ConsoleStyle.shownAll, ConsoleStyle.shown]

section Poll

variable {s : Session σ} {n : Nat}

theorem poll_none (h : s.runs.lookup n = none) (report : Option Report) :
    s.poll n report = (s, []) ∧ s.rendered n report = [] := by
  simp [poll, rendered, h]

theorem poll_ignored (h : s.runs.lookup n = some .ignored) (report : Option Report) :
    s.poll n report =
        ({ s with runs := s.runs.filter (·.1 != n) }, if s.ended then [] else busy) ∧
      s.rendered n report = [] := by
  simp [poll, rendered, h, Controller.advance, deeds]

theorem poll_waiting_none {r : Request} (h : s.runs.lookup n = some (.waiting r)) :
    s.poll n none = ({ s with runs := replaced n (.waiting r) s.runs }, []) ∧
      s.rendered n none = [] := by
  simp only [poll, rendered, h, Controller.advance, Controller.await]
  exact ⟨rfl, trivial⟩

theorem poll_accepted_none {r : Request} (h : s.runs.lookup n = some (.accepted r)) :
    s.poll n none = ({ s with runs := replaced n (.waiting r) s.runs }, [.invoke n r]) ∧
      s.rendered n none = [] := by
  simp only [poll, rendered, h, Controller.advance, Controller.await]
  exact ⟨rfl, trivial⟩

theorem poll_waiting_some {r : Request} (h : s.runs.lookup n = some (.waiting r)) (rep : Report) :
    s.poll n (some rep) =
        ({ s with
            controller := (s.controller.finish r rep.outcome).1
            runs := s.runs.filter (·.1 != n) },
          showEvents (Controller.shown r rep.outcome)) ∧
      s.rendered n (some rep) = [.rendered n r rep.outcome] := by
  have hdeeds : deeds n ((s.controller.finish r rep.outcome).2.map .surface) =
      showEvents (Controller.shown r rep.outcome) := by
    rw [deeds_surface]
    exact showEvents_concluded r rep.outcome (s.controller.inFlight - 1)
  simp only [poll, rendered, h, Controller.advance, Controller.await, hdeeds, Run.request?]
  exact ⟨trivial, trivial⟩

theorem poll_accepted_some {r : Request} (h : s.runs.lookup n = some (.accepted r))
    (rep : Report) :
    s.poll n (some rep) =
        ({ s with
            controller := (s.controller.finish r rep.outcome).1
            runs := s.runs.filter (·.1 != n) },
          .invoke n r :: showEvents (Controller.shown r rep.outcome)) ∧
      s.rendered n (some rep) = [.rendered n r rep.outcome] := by
  have hdeeds : deeds n (.invoke r :: (s.controller.finish r rep.outcome).2.map .surface) =
      .invoke n r :: showEvents (Controller.shown r rep.outcome) := by
    refine congrArg (Deed.invoke n r :: ·) ((deeds_surface n _).trans ?_)
    exact showEvents_concluded r rep.outcome (s.controller.inFlight - 1)
  simp only [poll, rendered, h, Controller.advance, Controller.await, hdeeds, Run.request?]
  exact ⟨trivial, trivial⟩

end Poll

/-! ## The runs that a session holds -/

/-- The runs of a session have numbers of their own, all given out before, and those that have a place are
in flight. -/
structure Numbered (s : Session σ) : Prop where
  numbers : (s.runs.map (·.1)).Nodup
  below : ∀ n ∈ s.runs.map (·.1), n < s.next
  count : s.controller.inFlight = places s.runs

namespace Numbered

variable {s s' : Session σ} {controller : Controller σ} {n : Nat} {run run' : Run}

theorem new (credential : Credential σ) : Numbered (Session.new credential) :=
  ⟨.nil, nofun, rfl⟩

theorem lookup_next (h : Numbered s) : s.runs.lookup s.next = none :=
  lookup_eq_none_iff.mpr fun hmem => Nat.lt_irrefl _ (h.below _ hmem)

theorem congr (h : Numbered s) (hruns : s'.runs = s.runs) (hnext : s'.next = s.next)
    (hcount : s'.controller.inFlight = s.controller.inFlight) : Numbered s' :=
  ⟨hruns ▸ h.numbers, hruns ▸ hnext ▸ h.below, by rw [hcount, hruns]; exact h.count⟩

/-- A run that is asked for takes the next number. -/
theorem start (h : Numbered s)
    (hcount : controller.inFlight = s.controller.inFlight + placeOf (some run)) :
    Numbered { s with controller, runs := s.runs ++ [(s.next, run)], next := s.next + 1 } := by
  refine ⟨?_, ?_, ?_⟩
  · rw [List.map_append, List.nodup_append]
    refine ⟨h.numbers, by simp, ?_⟩
    intro m hm k hk
    rw [List.map_singleton, List.mem_singleton] at hk
    rw [hk]
    exact Nat.ne_of_lt (h.below m hm)
  · intro m hm
    rw [List.map_append, List.mem_append, List.map_singleton, List.mem_singleton] at hm
    rcases hm with hm | rfl
    · exact Nat.lt_succ_of_lt (h.below m hm)
    · exact Nat.lt_succ_self _
  · rw [hcount, h.count]
    cases hrun : run.hasPlace <;> simp [places, placeOf, hrun]

/-- A run that stays under its number. -/
theorem replace (h : Numbered s) (hrun : s.runs.lookup n = some run)
    (hplace : placeOf (some run') = placeOf (some run)) :
    Numbered { s with runs := replaced n run' s.runs } := by
  have hkeys := map_fst_replaced n run' s.runs
  refine ⟨hkeys ▸ h.numbers, hkeys ▸ h.below, ?_⟩
  rw [places_replaced h.numbers hrun hplace]
  exact h.count

/-- A run that is done gives its place back, if it has one. -/
theorem release (h : Numbered s) (hrun : s.runs.lookup n = some run)
    (hcount : controller.inFlight = s.controller.inFlight - placeOf (some run)) :
    Numbered { s with controller, runs := s.runs.filter (·.1 != n) } := by
  refine ⟨nodup_filter_ne h.numbers n, ?_, ?_⟩
  · intro m hm
    exact h.below m ((List.filter_sublist.map _).mem hm)
  · have hold := h.count
    rw [places_eq_filter_ne h.numbers n, hrun] at hold
    show controller.inFlight = places (s.runs.filter _)
    omega

end Numbered

/-! ## What a chronicle tells -/

/-- What the marks for run `n`, its calls and its lines are, by what the session holds of it. -/
inductive Stands (n : Nat) : Option Run → List Mark → List Request → List Line → Prop
  /-- No such run, or one whose trigger was disabled and that is done, with a word on it or not. -/
  | unknown {written : List Line} :
      written = [] ∨ written = lines busy → Stands n none [] [] written
  | ignored : Stands n (some .ignored) [] [] []
  | accepted (r : Request) : Stands n (some (.accepted r)) [.accepted n r] [] []
  | waiting (r : Request) : Stands n (some (.waiting r)) [.accepted n r] [r] []
  /-- The outcome was shown when the run was done, and it wrote nothing else. -/
  | done (r : Request) (o : Outcome) :
      Stands n none [.accepted n r, .rendered n r o] [r] (lines (showEvents (Controller.shown r o)))

theorem filterMap_call?_eq_nil {n : Nat} {ds : List Deed} (h : ∀ m r, .invoke m r ∈ ds → m ≠ n) :
    ds.filterMap (Deed.call? n) = [] := by
  rw [List.filterMap_eq_nil_iff]
  intro d hd
  cases d with
  | write l => rfl
  | invoke m r => simp [Deed.call?, h m r hd]

theorem invoke_not_mem_showEvents (m : Nat) (r : Request) (es : List Event) :
    .invoke m r ∉ showEvents es := by
  simp [showEvents]

/-- The chronicle tells the truth about the session. -/
structure Told (c : Chronicle σ) : Prop where
  numbered : Numbered c.session
  marked : ∀ m ∈ c.marks, m.run < c.session.next
  called : ∀ n r, .invoke n r ∈ c.deeds → n < c.session.next
  silent : ∀ n, c.session.next ≤ n → c.wrote n = []
  stands : ∀ n, Stands n (c.session.runs.lookup n) (c.course n) (c.calls n) (c.wrote n)

namespace Told

variable {c : Chronicle σ}

/-- Deeds that hand over nothing, without marks and not by a run, leave every run where it is. -/
theorem quiet (h : Told c) {s : Session σ} {who : Option Nat} {ds : List Deed}
    (hruns : s.runs = c.session.runs) (hnext : s.next = c.session.next)
    (hcount : s.controller.inFlight = c.session.controller.inFlight)
    (hds : ∀ n r, .invoke n r ∉ ds) (hlines : who = none ∨ ds = []) :
    Told (c.noted s who ds []) := by
  have hcalls : ∀ n, ds.filterMap (Deed.call? n) = [] :=
    fun n => filterMap_call?_eq_nil fun m r hm => absurd hm (hds m r)
  have hwrote : ∀ n, (c.noted s who ds []).wrote n = c.wrote n := by
    intro n
    rcases hlines with rfl | rfl
    · simp
    · simp [lines]
  refine ⟨h.numbered.congr hruns hnext hcount, ?_, ?_, ?_, ?_⟩
  · rw [Chronicle.marks_noted, List.append_nil, Chronicle.session_noted, hnext]
    exact h.marked
  · intro n r hmem
    rw [Chronicle.session_noted, hnext]
    rcases List.mem_append.mp (Chronicle.deeds_noted .. ▸ hmem) with hmem | hmem
    · exact h.called n r hmem
    · exact absurd hmem (hds n r)
  · intro n hn
    rw [hwrote]
    exact h.silent n (hnext ▸ hn)
  · intro n
    have hn := h.stands n
    simpa [hwrote n, hruns, hcalls n] using hn

/-- What is about run `n` alone leaves the others where they are. -/
theorem extend (h : Told c) {n : Nat} {s : Session σ} {who : Option Nat} {ds : List Deed}
    {ms : List Mark} (hnext : c.session.next ≤ s.next) (hn : n < s.next)
    (hwho : ∀ m, who = some m → m = n)
    (hds : ∀ m r, .invoke m r ∈ ds → m = n) (hms : ∀ m ∈ ms, m.run = n)
    (hnumbered : Numbered s)
    (hothers : ∀ m, m ≠ n → s.runs.lookup m = c.session.runs.lookup m)
    (hself : Stands n (s.runs.lookup n) (c.course n ++ ms)
      (c.calls n ++ ds.filterMap (Deed.call? n))
      (c.wrote n ++ if who = some n then lines ds else [])) :
    Told (c.noted s who ds ms) := by
  have hwrote : ∀ m, m ≠ n → (c.noted s who ds ms).wrote m = c.wrote m := by
    intro m hm
    have hnot : who ≠ some m := fun heq => hm (hwho m heq)
    simp [hnot]
  refine ⟨hnumbered, ?_, ?_, ?_, ?_⟩
  · intro m hm
    rcases List.mem_append.mp hm with hm | hm
    · exact Nat.lt_of_lt_of_le (h.marked m hm) hnext
    · rw [hms m hm]
      exact hn
  · intro m r hm
    rcases List.mem_append.mp (Chronicle.deeds_noted .. ▸ hm) with hm | hm
    · exact Nat.lt_of_lt_of_le (h.called m r hm) hnext
    · rw [hds m r hm]
      exact hn
  · intro m hm
    have hle : s.next ≤ m := hm
    rw [hwrote m (Nat.ne_of_gt (Nat.lt_of_lt_of_le hn hle))]
    exact h.silent m (Nat.le_trans hnext hle)
  · intro m
    by_cases hmn : m = n
    · subst hmn
      have hcourse : ms.filter (·.run == m) = ms := by
        rw [List.filter_eq_self]
        intro x hx
        simp [hms x hx]
      simpa [hcourse] using hself
    · have hcourse : ms.filter (·.run == m) = [] := by
        rw [List.filter_eq_nil_iff]
        intro x hx
        simpa [hms x hx] using Ne.symm hmn
      have hcalls : ds.filterMap (Deed.call? m) = [] :=
        filterMap_call?_eq_nil fun k r hk => hds k r hk ▸ Ne.symm hmn
      have hm := h.stands m
      rw [← hothers m hmn] at hm
      simpa [hwrote m hmn, hcourse, hcalls] using hm

/-- Nothing is told of a run before it has its number. -/
theorem untold (h : Told c) :
    c.course c.session.next = [] ∧ c.calls c.session.next = [] ∧ c.wrote c.session.next = [] := by
  refine ⟨?_, ?_, h.silent _ (Nat.le_refl _)⟩
  · rw [Chronicle.course, List.filter_eq_nil_iff]
    intro m hm heq
    exact absurd (h.marked m hm) (by simpa using Nat.le_of_eq (beq_iff_eq.mp heq).symm)
  · exact filterMap_call?_eq_nil fun m r hm => Nat.ne_of_lt (h.called m r hm)

/-! ### A run is asked for -/

/-- A run that is asked for takes the next number. -/
theorem start (h : Told c) {controller : Controller σ} {run : Run} {ds : List Deed}
    {ms : List Mark}
    (hcount : controller.inFlight = c.session.controller.inFlight + placeOf (some run))
    (hds : ∀ n r, .invoke n r ∉ ds) (hms : ∀ m ∈ ms, m.run = c.session.next)
    (hstands : Stands c.session.next (some run) ms [] []) :
    Told (c.noted { c.session with
        controller
        runs := c.session.runs ++ [(c.session.next, run)]
        next := c.session.next + 1 } none ds ms) := by
  have hlookup := lookup_append_one h.numbered.lookup_next run
  obtain ⟨hcourse, hcalls, hwrote⟩ := h.untold
  have hnone : ds.filterMap (Deed.call? c.session.next) = [] :=
    filterMap_call?_eq_nil fun m r hm => absurd hm (hds m r)
  refine h.extend (n := c.session.next) (Nat.le_succ _) (Nat.lt_succ_self _) (by simp)
    (fun m r hm => absurd hm (hds m r)) hms (h.numbered.start hcount) ?_ ?_
  · intro m hm
    rw [hlookup, if_neg hm]
  · rw [hlookup, if_pos rfl, hcourse, hcalls, hwrote, hnone]
    exact hstands

/-! ### A run gets to go -/

/-- A run that stays under its number. -/
theorem replace (h : Told c) {n : Nat} {run run' : Run} {ds : List Deed}
    (hrun : c.session.runs.lookup n = some run) (hplace : placeOf (some run') = placeOf (some run))
    (hds : ∀ m r, .invoke m r ∈ ds → m = n)
    (hself : Stands n (some run') (c.course n) (c.calls n ++ ds.filterMap (Deed.call? n))
      (c.wrote n ++ lines ds)) :
    Told (c.noted { c.session with runs := replaced n run' c.session.runs } (some n) ds []) := by
  refine h.extend (Nat.le_refl _) (h.numbered.below n (mem_of_lookup hrun)) (by simp) hds (by simp)
    (h.numbered.replace hrun hplace) ?_ ?_
  · intro m hm
    rw [lookup_replaced, if_neg hm]
  · rw [lookup_replaced, if_pos rfl, hrun, List.append_nil, if_pos rfl]
    exact hself

/-- A run that is done gives its place back, if it has one. -/
theorem release (h : Told c) {n : Nat} {run : Run} {controller : Controller σ} {ds : List Deed}
    {ms : List Mark} (hrun : c.session.runs.lookup n = some run)
    (hcount : controller.inFlight = c.session.controller.inFlight - placeOf (some run))
    (hds : ∀ m r, .invoke m r ∈ ds → m = n) (hms : ∀ m ∈ ms, m.run = n)
    (hself : Stands n none (c.course n ++ ms) (c.calls n ++ ds.filterMap (Deed.call? n))
      (c.wrote n ++ lines ds)) :
    Told (c.noted { c.session with controller, runs := c.session.runs.filter (·.1 != n) } (some n)
      ds ms) := by
  refine h.extend (Nat.le_refl _) (h.numbered.below n (mem_of_lookup hrun)) (by simp) hds hms
    (h.numbered.release hrun hcount) ?_ ?_
  · intro m hm
    rw [lookup_filter_ne, if_neg hm]
  · rw [lookup_filter_ne, if_pos rfl, if_pos rfl]
    exact hself

/-- A run that ends with an outcome shows it. -/
theorem finish (h : Told c) {n : Nat} {run : Run} {r : Request} {o : Outcome} {ds : List Deed}
    (hrun : c.session.runs.lookup n = some run) (hplace : placeOf (some run) = 1)
    (hds : ∀ m r, .invoke m r ∈ ds → m = n) (hcourse : c.course n = [.accepted n r])
    (hcalls : c.calls n ++ ds.filterMap (Deed.call? n) = [r])
    (hwrote : c.wrote n ++ lines ds = lines (showEvents (Controller.shown r o))) :
    Told (c.noted { c.session with
        controller := (c.session.controller.finish r o).1
        runs := c.session.runs.filter (·.1 != n) } (some n) ds [.rendered n r o]) := by
  refine h.release hrun ?_ hds ?_ ?_
  · rw [hplace]
    rfl
  · simp [Mark.run]
  · rw [hcourse, hcalls, hwrote]
    exact .done r o

theorem poll (store : Store σ) (h : Told c) (n : Nat) (report : Option Report) :
    Told (c.step store (.poll n report)) := by
  have hstands := h.stands n
  show Told (c.noted (c.session.poll n report).1 (some n) (c.session.poll n report).2
    (c.session.rendered n report))
  generalize hcourse : c.course n = course at hstands
  generalize hcalls : c.calls n = calls at hstands
  generalize hwrote : c.wrote n = written at hstands
  cases hrun : c.session.runs.lookup n with
  | none =>
      obtain ⟨hpoll, hmarks⟩ := poll_none hrun report
      rw [hpoll, hmarks]
      exact h.quiet rfl rfl rfl (by simp) (.inr rfl)
  | some run =>
      rw [hrun] at hstands
      cases hstands with
      | ignored =>
          obtain ⟨hpoll, hmarks⟩ := poll_ignored hrun report
          have hbusy : ∀ m r, .invoke m r ∉ if c.session.ended then [] else busy := by
            intro m r
            split <;> simp [busy, say]
          rw [hpoll, hmarks]
          refine h.release hrun rfl (fun m r hm => absurd hm (hbusy m r)) (by simp) ?_
          rw [hcourse, hcalls, hwrote, filterMap_call?_eq_nil fun m r hm => absurd hm (hbusy m r)]
          refine .unknown ?_
          split
          · exact .inl rfl
          · exact .inr rfl
      | accepted r =>
          cases report with
          | none =>
              obtain ⟨hpoll, hmarks⟩ := poll_accepted_none hrun
              rw [hpoll, hmarks]
              refine h.replace hrun rfl (by simp) ?_
              rw [hcourse, hcalls, hwrote]
              simpa [Deed.call?, lines] using Stands.waiting (n := n) r
          | some rep =>
              obtain ⟨hpoll, hmarks⟩ := poll_accepted_some hrun rep
              rw [hpoll, hmarks]
              refine h.finish hrun rfl ?_ hcourse ?_ ?_
              · intro m r' hm
                rcases List.mem_cons.mp hm with heq | hm
                · exact (Deed.invoke.inj heq).1
                · exact absurd hm (invoke_not_mem_showEvents m r' _)
              · rw [hcalls, List.nil_append,
                  List.filterMap_cons_some (b := r) (by simp [Deed.call?]),
                  filterMap_call?_eq_nil fun m r' hm =>
                    absurd hm (invoke_not_mem_showEvents m r' _)]
              · rw [hwrote]
                rfl
      | waiting r =>
          cases report with
          | none =>
              obtain ⟨hpoll, hmarks⟩ := poll_waiting_none hrun
              rw [hpoll, hmarks]
              refine h.replace hrun rfl (by simp) ?_
              rw [hcourse, hcalls, hwrote]
              exact .waiting r
          | some rep =>
              obtain ⟨hpoll, hmarks⟩ := poll_waiting_some hrun rep
              rw [hpoll, hmarks]
              refine h.finish hrun rfl ?_ hcourse ?_ ?_
              · intro m r' hm
                exact absurd hm (invoke_not_mem_showEvents m r' _)
              · rw [hcalls, filterMap_call?_eq_nil fun m r' hm =>
                  absurd hm (invoke_not_mem_showEvents m r' _)]
                rfl
              · rw [hwrote]
                rfl

/-! ### A line is read -/

/-- An input that asks for no run leaves the runs alone. -/
theorem quiet_takeInput (store : Store σ) (s : Session σ) {i : Input} (hi : ∀ t, i ≠ .run t) :
    (s.takeInput store i).1.runs = s.runs ∧ (s.takeInput store i).1.next = s.next ∧
      (s.takeInput store i).1.controller.inFlight = s.controller.inFlight ∧
      ∀ n r, .invoke n r ∉ (s.takeInput store i).2 := by
  cases i with
  | run t => exact absurd rfl (hi t)
  | key value =>
      refine ⟨rfl, rfl, rfl, ?_⟩
      intro n r
      simp only [takeInput, setKey]
      split <;> simp [say]
  | sample name =>
      cases h : findSample? name <;> simp [takeInput, useSample, h, say]
  | clear => exact ⟨rfl, rfl, rfl, fun n r => invoke_not_mem_showEvents n r _⟩
  | samples =>
      refine ⟨rfl, rfl, rfl, ?_⟩
      intro n r
      simp [takeInput, say]
  | _ => simp [takeInput]

/-- The trigger of a line that runs the program is free. -/
theorem started_of_accepts (h : Told c) {t : Trigger} (hc : c.session.controller.accepts t = true) :
    started c.session (c.session.startRun t).1 =
      [.accepted c.session.next
        (.typed c.session.program c.session.controller.credential.header)] := by
  have hlookup := lookup_append_one h.numbered.lookup_next
    (.accepted (.typed c.session.program c.session.controller.credential.header)) c.session.next
  simp [started, startRun, Controller.start, hc, hlookup]

/-- The trigger of a line that runs the program is disabled. -/
theorem started_of_not_accepts (h : Told c) {t : Trigger}
    (hc : c.session.controller.accepts t = false) :
    started c.session (c.session.startRun t).1 = [] := by
  have hlookup := lookup_append_one h.numbered.lookup_next .ignored c.session.next
  simp [started, startRun, Controller.start, hc, hlookup]

theorem startRun (h : Told c) (t : Trigger) :
    Told (c.noted (c.session.startRun t).1 none (c.session.startRun t).2
      (started c.session (c.session.startRun t).1)) := by
  have hds : ∀ n r, .invoke n r ∉ (c.session.startRun t).2 := by
    intro n r hmem
    rcases List.mem_append.mp hmem with hmem | hmem
    · split at hmem <;> simp [say] at hmem
    · exact invoke_not_mem_showEvents n r _ hmem
  cases hc : c.session.controller.accepts t with
  | true =>
      rw [h.started_of_accepts hc]
      simp only [Session.startRun, Controller.start, hc, if_true] at hds ⊢
      exact h.start rfl hds (by simp [Mark.run]) (.accepted _)
  | false =>
      rw [h.started_of_not_accepts hc]
      simp only [Session.startRun, Controller.start, hc, Bool.false_eq_true, if_false] at hds ⊢
      exact h.start rfl hds (by simp) .ignored

theorem line (store : Store σ) (h : Told c) (text : String) :
    Told (c.step store (.line text)) := by
  show Told (c.noted (c.session.step store (.line text)).1 none
    (c.session.step store (.line text)).2
    (started c.session (c.session.step store (.line text)).1))
  cases hended : c.session.ended with
  | true =>
      simp only [Session.step, hended, if_true, started]
      exact h.quiet rfl rfl rfl (by simp) (.inl rfl)
  | false =>
      simp only [Session.step, hended, Bool.false_eq_true, if_false]
      by_cases hrun : ∃ t, Input.parse text = .run t
      · obtain ⟨t, ht⟩ := hrun
        rw [ht]
        exact h.startRun t
      · obtain ⟨hruns, hnext, hcount, hds⟩ :=
          quiet_takeInput store c.session (i := .parse text) fun t ht => hrun ⟨t, ht⟩
        rw [started, if_pos hnext]
        exact h.quiet hruns hnext hcount hds (.inl rfl)

/-! ### Every step, every run -/

theorem step (store : Store σ) (h : Told c) (s : Step) : Told (c.step store s) := by
  cases s with
  | line text => exact h.line store text
  | ended =>
      have hstarted : started c.session (c.session.step store .ended).1 = [] := if_pos rfl
      show Told (c.noted _ none _ (started c.session (c.session.step store .ended).1))
      rw [hstarted]
      exact h.quiet rfl rfl rfl (by simp [Session.step]) (.inl rfl)
  | poll n report => exact h.poll store n report

theorem new (credential : Credential σ) : Told (Chronicle.new credential) := by
  refine ⟨.new credential, ?_, ?_, fun _ _ => rfl, fun n => .unknown (.inl rfl)⟩
  · simp [Chronicle.new]
  · simp [Chronicle.new, Chronicle.deeds]

end Told

/-- After every sequence of steps the chronicle tells the truth about the session. -/
theorem told_run (store : Store σ) (credential : Credential σ) (steps : List Step) :
    Told (Chronicle.run store credential steps) := by
  induction steps using List.reverseRecOn with
  | nil => exact .new credential
  | append_singleton steps s ih =>
      rw [Chronicle.run_append_one]
      exact ih.step store s

end Relay.Session

import Relay.Proofs.Controller.Ledger

/-!
# What a log can look like

`Written log k` holds of the logs that a controller can leave behind, with `k` runs in flight.
Every constructor adds the lines of one thing that can happen, and asks of the log only what the
controller can know at that moment.  A step at a desk is a few of them in a row: a first poll
that finds its report already filed accepts, invokes and completes.

`tracks_run` is the simulation: whatever steps a desk takes, its ledger's log is `Written`, and
each run that the desk still holds stands in the log where the desk believes it to be.
-/

namespace Relay

/-- The logs that a controller can leave behind, each with the number of runs in flight. -/
inductive Written : Log → Nat → Prop
  | nil : Written [] 0
  | ask {log : Log} {k : Nat} (n : Nat) (name : String) :
      Written log k → Log.course n log = [] → Written (log ++ [.asked n name]) k
  /-- The button finds nothing in flight; the accelerator does not look. -/
  | accept {log : Log} {k n : Nat} {name : String} {t : Trigger} (r : Request) :
      Written log k → Log.course n log = [.asked n name] → k = 0 ∨ t = .accelerator →
      Written (log ++ .accepted n t r :: Log.deeds (some n) r.announced) (k + 1)
  | ignore {log : Log} {k n : Nat} {name : String} :
      Written log k → Log.course n log = [.asked n name] → k ≠ 0 →
      Written (log ++ [.ignored n .button]) k
  | invoke {log : Log} {k n : Nat} {name : String} {t : Trigger} {r : Request} :
      Written log k → Log.course n log = [.asked n name, .accepted n t r] →
      Written (log ++ [.did (some n) (.invoke r)]) k
  | file {log : Log} {k : Nat} (name : String) (rep : Report) :
      Written log k → Written (log ++ [.reported name rep]) k
  /-- The run takes what is on file under its own name. -/
  | complete {log : Log} {k n : Nat} {name : String} {t : Trigger} {r : Request} {rep : Report} :
      Written log k →
      Log.course n log = [.asked n name, .accepted n t r, .did (some n) (.invoke r)] →
      Log.filed name log = some rep →
      Written (log ++ (Log.deeds (some n) (r.concluded rep.outcome (k - 1)) ++
        [.completed n name r rep.outcome])) (k - 1)
  | decline {log : Log} {k n : Nat} {name : String} :
      Written log k → Log.course n log = [.asked n name, .ignored n .button] →
      Written (log ++ [.declined n]) k
  | clear {log : Log} {k : Nat} :
      Written log k → Written (log ++ (Log.deeds none Controller.clear ++ [.cleared])) k

/-- Where a run that the desk holds under a name stands in its course. -/
def Run.Stands (n : Nat) (name : String) (course : Log) : Run → Prop
  | .planned _ _ _ => course = [.asked n name]
  | .ignored => course = [.asked n name, .ignored n .button]
  | .accepted r => ∃ t, course = [.asked n name, .accepted n t r]
  | .waiting r => ∃ t, course = [.asked n name, .accepted n t r, .did (some n) (.invoke r)]

theorem Run.Stands.head? {n : Nat} {name : String} {course : Log} {run : Run}
    (h : run.Stands n name course) : course.head? = some (.asked n name) := by
  cases run with
  | planned t o f => rw [show course = _ from h]; rfl
  | ignored => rw [show course = _ from h]; rfl
  | accepted r => obtain ⟨t, rfl⟩ := h; rfl
  | waiting r => obtain ⟨t, rfl⟩ := h; rfl

/-- The log tells the truth about the desk. -/
structure Tracks {σ : Type} (l : Ledger σ) : Prop where
  written : Written l.log l.desk.controller.inFlight
  /-- Numbers are places in the log, so the next place is a new number. -/
  numbered : ∀ m ∈ l.log, ∀ n, m.run? = some n → n < l.log.length
  held : ∀ name run, l.desk.runs.lookup name = some run →
    ∃ n, Log.holder name l.log = some n ∧ run.Stands n name (Log.course n l.log)
  filed : ∀ name, l.desk.reports.lookup name = Log.filed name l.log

namespace Tracks

variable {σ : Type} {l : Ledger σ}

/-- The next place in the log is the number of no run. -/
theorem course_length (h : Tracks l) : Log.course l.log.length l.log = [] := by
  rw [List.eq_nil_iff_forall_not_mem]
  intro m hm
  obtain ⟨hlog, hmark⟩ := Log.mem_course.mp hm
  exact absurd (h.numbered m hlog _ (Note.run?_of_marks hmark)) (Nat.lt_irrefl _)

/-- Runs under different names have different numbers. -/
theorem holder_ne (h : Tracks l) {name other : String} {run run' : Run} {n n' : Nat}
    (hrun : l.desk.runs.lookup name = some run) (hn : Log.holder name l.log = some n)
    (hrun' : l.desk.runs.lookup other = some run') (hn' : Log.holder other l.log = some n')
    (hne : other ≠ name) : n' ≠ n := by
  rintro rfl
  obtain ⟨a, ha, hs⟩ := h.held name run hrun
  obtain ⟨b, hb, hs'⟩ := h.held other run' hrun'
  obtain rfl : n' = a := Option.some.inj (hn.symm.trans ha)
  obtain rfl : n' = b := Option.some.inj (hn'.symm.trans hb)
  -- the line that opens a course names the run, and here it would name it twice
  have heq := hs.head?.symm.trans hs'.head?
  simp only [Option.some.injEq, Note.asked.injEq, true_and] at heq
  exact hne heq.symm

/-- Lines about the run under one name leave the runs under other names where they are. -/
theorem extend (h : Tracks l) {name : String} {run : Run} {n : Nat} {d : Desk σ} {more : Log}
    (hrun : l.desk.runs.lookup name = some run) (hn : Log.holder name l.log = some n)
    (hmore : ∀ m ∈ more, m.run? = some n ∧ m.isAsked = false)
    (hwritten : Written (l.log ++ more) d.controller.inFlight)
    (hothers : ∀ other, other ≠ name → d.runs.lookup other = l.desk.runs.lookup other)
    (hself : ∀ run', d.runs.lookup name = some run' →
      run'.Stands n name (Log.course n (l.log ++ more)))
    (hfiled : ∀ other, d.reports.lookup other = Log.filed other (l.log ++ more)) :
    Tracks ⟨d, l.log ++ more⟩ := by
  have hholder : ∀ other, Log.holder other (l.log ++ more) = Log.holder other l.log :=
    fun other => Log.holder_append_of_not_asked other fun m hm => (hmore m hm).2
  refine ⟨hwritten, ?_, ?_, hfiled⟩
  · intro m hm k hk
    have hlength : l.log.length ≤ (l.log ++ more).length := by simp
    rcases List.mem_append.mp hm with hm | hm
    · exact Nat.lt_of_lt_of_le (h.numbered m hm k hk) hlength
    · -- the new lines are about a run that was asked for in the old log
      obtain ⟨a, ha, hs⟩ := h.held name run hrun
      obtain rfl : n = a := Option.some.inj (hn.symm.trans ha)
      obtain rfl : n = k := Option.some.inj ((hmore m hm).1.symm.trans hk)
      have hmem : .asked n name ∈ Log.course n l.log := List.mem_of_head? hs.head?
      exact Nat.lt_of_lt_of_le (h.numbered _ (Log.mem_course.mp hmem).1 n rfl) hlength
  · intro other run' hrun'
    rw [hholder other]
    by_cases ho : other = name
    · subst ho
      exact ⟨n, hn, hself run' hrun'⟩
    · rw [hothers other ho] at hrun'
      obtain ⟨k, hk, hs⟩ := h.held other run' hrun'
      have hkn : k ≠ n := h.holder_ne hrun hn hrun' hk ho
      have hcourse : Log.course k more = [] :=
        Log.course_eq_nil fun m hm => by rw [(hmore m hm).1]; simpa using hkn.symm
      exact ⟨k, hk, by rw [Log.course_append, hcourse, List.append_nil]; exact hs⟩

/-- A run that goes on is put back under its name. -/
theorem extend_put (h : Tracks l) {name : String} {run run' : Run} {n : Nat}
    {c : Controller σ} {more : Log}
    (hrun : l.desk.runs.lookup name = some run) (hn : Log.holder name l.log = some n)
    (hmore : ∀ m ∈ more, m.run? = some n ∧ m.isAsked = false)
    (hwritten : Written (l.log ++ more) c.inFlight)
    (hstands : run'.Stands n name (Log.course n (l.log ++ more)))
    (hfile : ∀ other report, more.foldl (Log.refile other) report = report) :
    Tracks ⟨⟨c, Desk.put name run' l.desk.runs, l.desk.reports⟩, l.log ++ more⟩ := by
  refine h.extend hrun hn hmore hwritten ?_ ?_ ?_
  · intro other ho
    simp [ho]
  · intro run'' hrun''
    obtain rfl : run' = run'' := by simpa using hrun''
    exact hstands
  · intro other
    rw [Log.filed_append, hfile]
    exact h.filed other

/-- A run that ends with an outcome leaves its name, with the report that it took. -/
theorem extend_complete (h : Tracks l) {name : String} {run : Run} {n : Nat}
    {c : Controller σ} {more : Log} {r : Request} {o : Outcome}
    (hrun : l.desk.runs.lookup name = some run) (hn : Log.holder name l.log = some n)
    (hmore : ∀ m ∈ more, m.run? = some n ∧ m.isAsked = false)
    (hwritten : Written (l.log ++ (more ++ [.completed n name r o])) c.inFlight)
    (hfile : ∀ other report, more.foldl (Log.refile other) report = report) :
    Tracks ⟨⟨c, Desk.without name l.desk.runs, Desk.without name l.desk.reports⟩,
      l.log ++ (more ++ [.completed n name r o])⟩ := by
  refine h.extend hrun hn ?_ hwritten ?_ ?_ ?_
  · intro m hm
    rcases List.mem_append.mp hm with hm | hm
    · exact hmore m hm
    · rw [List.mem_singleton.mp hm]
      exact ⟨rfl, rfl⟩
  · intro other ho
    simp [ho]
  · simp
  · intro other
    rw [Log.filed_append, List.foldl_append, hfile, Desk.lookup_without, h.filed other]
    by_cases ho : other = name
    · simp [Log.refile, ho]
    · have hname : ¬ name = other := fun e => ho e.symm
      simp [Log.refile, ho, hname]

/-- A run that ends without an outcome leaves its name; the report stays on file. -/
theorem extend_decline (h : Tracks l) {name : String} {run : Run} {n : Nat} {more : Log}
    (hrun : l.desk.runs.lookup name = some run) (hn : Log.holder name l.log = some n)
    (hmore : ∀ m ∈ more, m.run? = some n ∧ m.isAsked = false)
    (hwritten : Written (l.log ++ more) l.desk.controller.inFlight)
    (hfile : ∀ other report, more.foldl (Log.refile other) report = report) :
    Tracks ⟨{ l.desk with runs := Desk.without name l.desk.runs }, l.log ++ more⟩ := by
  refine h.extend hrun hn hmore hwritten ?_ ?_ ?_
  · intro other ho
    simp [ho]
  · simp
  · intro other
    rw [Log.filed_append, hfile]
    exact h.filed other

end Tracks

/-! ## A run gets to go -/

namespace Ledger

variable {σ : Type} {l : Ledger σ} {name : String}

theorem added_runCode_busy (store : Store σ) {t : Trigger}
    (hc : l.desk.controller.accepts t = false) (code : String) :
    l.added store (.runCode name t code) =
      [.asked l.log.length name, .ignored l.log.length t] := by
  simp [added, lines, Desk.step_runCode_busy store hc, taken]

theorem added_runCode (store : Store σ) {t : Trigger} (hc : l.desk.controller.accepts t = true)
    (code : String) :
    l.added store (.runCode name t code) =
      .asked l.log.length name ::
        .accepted l.log.length t (.typed code l.desk.controller.credential.header) ::
        Log.deeds (some l.log.length)
          (Request.typed code l.desk.controller.credential.header).announced := by
  simp [added, lines, Desk.step_runCode store hc, taken, Log.deeds]

/-- A poll under a name that holds no run changes nothing. -/
theorem step_poll_none (store : Store σ) (hrun : l.desk.runs.lookup name = none) :
    l.step store (.poll name) = l := by
  have hpoll : l.desk.step store (.poll name) = (l.desk, .noSuchRun, []) := Desk.poll_none hrun
  cases hn : Log.holder name l.log <;> simp [step, added, lines, hpoll, hrun, hn]

theorem step_poll_some (store : Store σ) {run : Run} {n : Nat}
    (hrun : l.desk.runs.lookup name = some run) (hn : Log.holder name l.log = some n)
    {d : Desk σ} {answer : Answer} {effects : List Effect}
    (hpoll : l.desk.poll name = (d, answer, effects)) :
    l.step store (.poll name) = ⟨d, l.log ++
      (claimed n run answer ++ effects.map (.did (some n)) ++ ended n name run answer)⟩ := by
  have hstep : l.desk.step store (.poll name) = (d, answer, effects) := hpoll
  simp [step, added, lines, hstep, hrun, hn]

/-- The ledger when the request of run `n` has gone out. -/
def invoked (l : Ledger σ) (name : String) (n : Nat) (r : Request) : Ledger σ :=
  ⟨{ l.desk with runs := Desk.put name (.waiting r) l.desk.runs },
    l.log ++ [.did (some n) (.invoke r)]⟩

/-- The ledger when run `n` has claimed its place. -/
def accepted (l : Ledger σ) (name : String) (n : Nat) (t : Trigger) (r : Request) : Ledger σ :=
  ⟨⟨l.desk.controller.claim, Desk.put name (.accepted r) l.desk.runs, l.desk.reports⟩,
    l.log ++ .accepted n t r :: Log.deeds (some n) r.announced⟩

theorem step_poll_accepted (store : Store σ) {r : Request} {n : Nat}
    (hrun : l.desk.runs.lookup name = some (.accepted r)) (hn : Log.holder name l.log = some n) :
    l.step store (.poll name) = (l.invoked name n r).step store (.poll name) := by
  obtain ⟨d, answer, effects, hnext⟩ : ∃ d answer effects,
      (l.invoked name n r).desk.poll name = (d, answer, effects) := ⟨_, _, _, rfl⟩
  have hrun' : (l.invoked name n r).desk.runs.lookup name = some (.waiting r) := by
    simp [invoked]
  have hn' : Log.holder name (l.invoked name n r).log = some n := by
    rw [invoked, Log.holder_append_of_not_asked name (by simp [Note.isAsked]), hn]
  rw [step_poll_some store hrun hn (Desk.poll_accepted hrun hnext),
    step_poll_some store hrun' hn' hnext]
  cases answer <;> simp [claimed, ended, invoked, Run.request?]

theorem step_poll_planned (store : Store σ) {t : Trigger} {o : Operation} {f : SourceFile} {n : Nat}
    (hrun : l.desk.runs.lookup name = some (.planned t o f)) (hn : Log.holder name l.log = some n)
    (hc : l.desk.controller.accepts t = true) :
    l.step store (.poll name) = (l.accepted name n t (.onFile f o)).step store (.poll name) := by
  obtain ⟨d, answer, effects, hnext⟩ : ∃ d answer effects,
      (l.accepted name n t (.onFile f o)).desk.poll name = (d, answer, effects) := ⟨_, _, _, rfl⟩
  have hrun' : (l.accepted name n t (.onFile f o)).desk.runs.lookup name =
      some (.accepted (.onFile f o)) := by
    simp [accepted]
  have hn' : Log.holder name (l.accepted name n t (.onFile f o)).log = some n := by
    rw [accepted, Log.holder_append_of_not_asked name (by simp [Log.deeds, Note.isAsked]), hn]
  have hanswer : answer ≠ .ready none := by
    have := Desk.answer_poll_of_accepted hrun'
    rwa [hnext] at this
  rw [step_poll_some store hrun hn (Desk.poll_planned hrun hc hnext),
    step_poll_some store hrun' hn' hnext]
  cases answer <;> simp_all [claimed, ended, accepted, Run.request?, Log.deeds]

end Ledger

namespace Tracks

variable {σ : Type} {l : Ledger σ} {name : String} {n : Nat}

theorem poll_ignored (store : Store σ) (h : Tracks l)
    (hrun : l.desk.runs.lookup name = some .ignored) (hn : Log.holder name l.log = some n)
    (hcourse : Log.course n l.log = [.asked n name, .ignored n .button]) :
    Tracks (l.step store (.poll name)) := by
  rw [Ledger.step_poll_some store hrun hn (Desk.poll_ignored hrun)]
  refine h.extend_decline hrun hn ?_ (h.written.decline hcourse) ?_
  · simp [Ledger.claimed, Ledger.ended, Note.run?, Note.isAsked]
  · simp [Ledger.claimed, Ledger.ended, Log.refile]

theorem poll_waiting (store : Store σ) (h : Tracks l) {r : Request} {t : Trigger}
    (hrun : l.desk.runs.lookup name = some (.waiting r)) (hn : Log.holder name l.log = some n)
    (hcourse : Log.course n l.log = [.asked n name, .accepted n t r, .did (some n) (.invoke r)]) :
    Tracks (l.step store (.poll name)) := by
  cases hrep : l.desk.reports.lookup name with
  | none =>
      rw [Ledger.step_poll_some store hrun hn (Desk.poll_waiting_none hrun hrep)]
      refine h.extend_put hrun hn ?_ ?_ ?_ ?_
      · simp [Ledger.claimed, Ledger.ended]
      · simpa [Ledger.claimed, Ledger.ended] using h.written
      · exact ⟨t, by simpa [Ledger.claimed, Ledger.ended] using hcourse⟩
      · simp [Ledger.claimed, Ledger.ended]
  | some rep =>
      rw [Ledger.step_poll_some store hrun hn (Desk.poll_waiting_some hrun hrep)]
      have hwritten := h.written.complete hcourse ((h.filed name).symm.trans hrep)
      simp only [Ledger.claimed, Ledger.ended, Run.request?, Option.map_some, Option.toList_some,
        List.nil_append, List.map_map]
      refine h.extend_complete hrun hn ?_ hwritten ?_
      · simp [Note.run?, Note.isAsked]
      · exact fun other report => Log.foldl_refile_deeds other report _ _

theorem poll_accepted (store : Store σ) (h : Tracks l) {r : Request} {t : Trigger}
    (hrun : l.desk.runs.lookup name = some (.accepted r)) (hn : Log.holder name l.log = some n)
    (hcourse : Log.course n l.log = [.asked n name, .accepted n t r]) :
    Tracks (l.step store (.poll name)) := by
  have hcourse' : Log.course n (l.log ++ [.did (some n) (.invoke r)]) =
      [.asked n name, .accepted n t r, .did (some n) (.invoke r)] := by
    simp [hcourse, Note.marks, Note.run?]
  have hinvoked : Tracks (l.invoked name n r) := by
    refine h.extend_put hrun hn ?_ (h.written.invoke hcourse) ⟨t, hcourse'⟩ ?_
    · simp [Note.run?, Note.isAsked]
    · simp [Log.refile]
  rw [Ledger.step_poll_accepted store hrun hn]
  refine hinvoked.poll_waiting store ?_ ?_ hcourse'
  · simp [Ledger.invoked]
  · rw [Ledger.invoked, Log.holder_append_of_not_asked name (by simp [Note.isAsked]), hn]

theorem poll_planned (store : Store σ) (h : Tracks l) {t : Trigger} {o : Operation}
    {f : SourceFile} (hrun : l.desk.runs.lookup name = some (.planned t o f))
    (hn : Log.holder name l.log = some n) (hcourse : Log.course n l.log = [.asked n name]) :
    Tracks (l.step store (.poll name)) := by
  cases hc : l.desk.controller.accepts t with
  | false =>
      obtain ⟨hbusy, rfl⟩ := Controller.not_accepts hc
      have hcourse' : Log.course n (l.log ++ [.ignored n .button]) =
          [.asked n name, .ignored n .button] := by
        simp [hcourse, Note.marks, Note.run?]
      -- a run on a file is refused and answers in one poll, so two things happen at once
      have hwritten := (h.written.ignore hcourse hbusy).decline hcourse'
      rw [List.append_assoc] at hwritten
      rw [Ledger.step_poll_some store hrun hn (Desk.poll_planned_busy hrun hc)]
      refine h.extend_decline hrun hn ?_ hwritten ?_
      · simp [Ledger.claimed, Ledger.ended, Note.run?, Note.isAsked]
      · simp [Ledger.claimed, Ledger.ended, Log.refile]
  | true =>
      have hcourse' : Log.course n (l.log ++ .accepted n t (.onFile f o) ::
          Log.deeds (some n) (Request.onFile f o).announced) =
          [.asked n name, .accepted n t (.onFile f o)] := by
        simp [hcourse, Note.marks, Note.run?]
      have haccepted : Tracks (l.accepted name n t (.onFile f o)) := by
        refine h.extend_put hrun hn ?_
          (h.written.accept _ hcourse (Controller.accepts_iff.mp hc)) ⟨t, hcourse'⟩ ?_
        · simp [Log.deeds, Note.run?, Note.isAsked]
        · simp [Log.refile]
      rw [Ledger.step_poll_planned store hrun hn hc]
      refine haccepted.poll_accepted store ?_ ?_ hcourse'
      · simp [Ledger.accepted]
      · rw [Ledger.accepted,
          Log.holder_append_of_not_asked name (by simp [Log.deeds, Note.isAsked]), hn]

theorem poll (store : Store σ) (h : Tracks l) (name : String) :
    Tracks (l.step store (.poll name)) := by
  cases hrun : l.desk.runs.lookup name with
  | none =>
      rw [Ledger.step_poll_none store hrun]
      exact h
  | some run =>
      obtain ⟨n, hn, hstands⟩ := h.held name run hrun
      cases run with
      | ignored => exact h.poll_ignored store hrun hn hstands
      | accepted r =>
          obtain ⟨t, hcourse⟩ := hstands
          exact h.poll_accepted store hrun hn hcourse
      | planned t o f => exact h.poll_planned store hrun hn hstands
      | waiting r =>
          obtain ⟨t, hcourse⟩ := hstands
          exact h.poll_waiting store hrun hn hcourse

/-! ## The other steps -/

/-- A run that is asked for takes the next number, whatever else is under its name. -/
theorem ask (h : Tracks l) {name : String} {run : Run} {c : Controller σ} {more : Log}
    (hmore : ∀ m ∈ more, m.run? = some l.log.length ∧ m.isAsked = false)
    (hwritten : Written (l.log ++ .asked l.log.length name :: more) c.inFlight)
    (hstands : run.Stands l.log.length name
      (.asked l.log.length name :: Log.course l.log.length more))
    (hfile : ∀ other report, more.foldl (Log.refile other) report = report) :
    Tracks ⟨⟨c, Desk.put name run l.desk.runs, l.desk.reports⟩,
      l.log ++ .asked l.log.length name :: more⟩ := by
  have hlines : ∀ m ∈ Note.asked l.log.length name :: more, m.run? = some l.log.length := by
    intro m hm
    rcases List.mem_cons.mp hm with rfl | hm
    · rfl
    · exact (hmore m hm).1
  refine ⟨hwritten, ?_, ?_, ?_⟩
  · intro m hm k hk
    rw [List.length_append, List.length_cons]
    rcases List.mem_append.mp hm with hm | hm
    · have := h.numbered m hm k hk
      omega
    · rw [hlines m hm, Option.some.injEq] at hk
      omega
  · intro other run' hrun'
    rw [Desk.lookup_put] at hrun'
    rw [List.append_cons, Log.holder_append_of_not_asked other fun m hm => (hmore m hm).2,
      Log.holder_asked, ← List.append_cons]
    by_cases ho : other = name
    · rw [if_pos ho] at hrun' ⊢
      obtain rfl := Option.some.inj hrun'
      refine ⟨l.log.length, rfl, ?_⟩
      rw [Log.course_append, h.course_length, ho]
      simpa [Note.marks, Note.run?] using hstands
    · rw [if_neg ho] at hrun' ⊢
      -- a run held under another name has a number that was given out before
      obtain ⟨k, hk, hs⟩ := h.held other run' hrun'
      have hasked := (Log.mem_course.mp (List.mem_of_head? hs.head?)).1
      have hlt : k < l.log.length := h.numbered _ hasked k rfl
      have hcourse : Log.course k (.asked l.log.length name :: more) = [] :=
        Log.course_eq_nil fun m hm => by
          rw [hlines m hm, Ne, Option.some.injEq]
          omega
      exact ⟨k, hk, by rw [Log.course_append, hcourse, List.append_nil]; exact hs⟩
  · intro other
    rw [Log.filed_append, List.foldl_cons, hfile]
    exact h.filed other

theorem runCode (store : Store σ) (h : Tracks l) (name : String) (t : Trigger) (code : String) :
    Tracks (l.step store (.runCode name t code)) := by
  have hask := h.written.ask _ name h.course_length
  have hcourse : Log.course l.log.length (l.log ++ [.asked l.log.length name]) =
      [.asked l.log.length name] := by
    simp [h.course_length, Note.marks, Note.run?]
  cases hc : l.desk.controller.accepts t with
  | false =>
      obtain ⟨hbusy, rfl⟩ := Controller.not_accepts hc
      have hwritten := hask.ignore hcourse hbusy
      rw [List.append_assoc] at hwritten
      rw [Ledger.step, Ledger.added_runCode_busy store hc, Desk.step_runCode_busy store hc]
      refine h.ask ?_ hwritten ?_ ?_
      · simp [Note.run?, Note.isAsked]
      · simp [Run.Stands, Note.marks, Note.run?]
      · simp [Log.refile]
  | true =>
      have hwritten := hask.accept (.typed code l.desk.controller.credential.header) hcourse
        (Controller.accepts_iff.mp hc)
      rw [List.append_assoc] at hwritten
      rw [Ledger.step, Ledger.added_runCode store hc, Desk.step_runCode store hc]
      refine h.ask ?_ hwritten ⟨t, ?_⟩ ?_
      · simp [Log.deeds, Note.run?, Note.isAsked]
      · simp [Note.marks, Note.run?]
      · simp [Log.refile]

theorem runFile (store : Store σ) (h : Tracks l) (name : String) (t : Trigger) (o : Operation)
    (f : SourceFile) : Tracks (l.step store (.runFile name t o f)) := by
  have hstep : l.step store (.runFile name t o f) =
      ⟨{ l.desk with runs := Desk.put name (.planned t o f) l.desk.runs },
        l.log ++ [.asked l.log.length name]⟩ := rfl
  rw [hstep]
  exact h.ask (by simp) (h.written.ask _ name h.course_length) rfl (by simp)

/-- Lines about no run leave every run where it is. -/
theorem remark (h : Tracks l) {d : Desk σ} {more : Log} (hmore : ∀ m ∈ more, m.run? = none)
    (hwritten : Written (l.log ++ more) d.controller.inFlight)
    (hruns : ∀ name run, d.runs.lookup name = some run → l.desk.runs.lookup name = some run)
    (hfiled : ∀ name, d.reports.lookup name = Log.filed name (l.log ++ more)) :
    Tracks ⟨d, l.log ++ more⟩ := by
  have hnot : ∀ m ∈ more, m.isAsked = false := by
    intro m hm
    cases m with
    | asked n name => exact absurd (hmore _ hm) (by simp [Note.run?])
    | _ => rfl
  refine ⟨hwritten, ?_, ?_, hfiled⟩
  · intro m hm k hk
    rw [List.length_append]
    rcases List.mem_append.mp hm with hm | hm
    · exact Nat.lt_add_right _ (h.numbered m hm k hk)
    · rw [hmore m hm] at hk
      cases hk
  · intro name run hrun
    obtain ⟨n, hn, hs⟩ := h.held name run (hruns name run hrun)
    have hcourse : Log.course n more = [] :=
      Log.course_eq_nil fun m hm => by rw [hmore m hm]; simp
    refine ⟨n, (Log.holder_append_of_not_asked name hnot).trans hn, ?_⟩
    rw [Log.course_append, hcourse, List.append_nil]
    exact hs

theorem drop (store : Store σ) (h : Tracks l) (name : String) :
    Tracks (l.step store (.drop name)) := by
  have hstep : l.step store (.drop name) =
      ⟨{ l.desk with runs := Desk.without name l.desk.runs }, l.log ++ []⟩ := rfl
  rw [hstep]
  -- nothing is written: in the log the run stays where it was, and in flight if it was
  refine h.remark (by simp) (by simpa using h.written) ?_ (by simpa using h.filed)
  intro other run hrun
  by_cases ho : other = name
  · simp [ho] at hrun
  · simpa [ho] using hrun

theorem setCredential (store : Store σ) (h : Tracks l) (value : String) :
    Tracks (l.step store (.setCredential value)) := by
  have hstep : l.step store (.setCredential value) =
      ⟨{ l.desk with controller := (l.desk.controller.setCredential store value).1 },
        l.log ++ []⟩ := rfl
  rw [hstep]
  have hwritten : Written (l.log ++ []) l.desk.controller.inFlight := by simpa using h.written
  exact h.remark (by simp) hwritten (fun _ _ hrun => hrun) (by simpa using h.filed)

theorem report (store : Store σ) (h : Tracks l) (name : String) (rep : Report) :
    Tracks (l.step store (.report name rep)) := by
  have hstep : l.step store (.report name rep) =
      ⟨{ l.desk with reports := Desk.put name rep l.desk.reports },
        l.log ++ [.reported name rep]⟩ := rfl
  rw [hstep]
  refine h.remark (by simp [Note.run?]) (h.written.file name rep) (fun _ _ hrun => hrun) ?_
  intro other
  by_cases ho : other = name
  · simp [Log.refile, ho]
  · have hname : ¬ name = other := fun e => ho e.symm
    simpa [Log.refile, ho, hname] using h.filed other

theorem clear (store : Store σ) (h : Tracks l) : Tracks (l.step store .clear) := by
  have hstep : l.step store .clear =
      ⟨l.desk, l.log ++ (Log.deeds none Controller.clear ++ [.cleared])⟩ := rfl
  rw [hstep]
  refine h.remark ?_ h.written.clear (fun _ _ hrun => hrun) ?_
  · simp [Log.deeds, Controller.clear, Note.run?]
  · intro other
    simpa [Log.refile] using h.filed other

/-! ## Every step, every run -/

theorem step (store : Store σ) (h : Tracks l) (s : Step) : Tracks (l.step store s) := by
  cases s with
  | runCode name t code => exact h.runCode store name t code
  | runFile name t o f => exact h.runFile store name t o f
  | poll name => exact h.poll store name
  | report name rep => exact h.report store name rep
  | drop name => exact h.drop store name
  | clear => exact h.clear store
  | setCredential value => exact h.setCredential store value

theorem new (credential : Credential σ) : Tracks (Ledger.new credential) := by
  refine ⟨.nil, ?_, ?_, ?_⟩ <;> simp [Ledger.new, Desk.new, Log.filed]

end Tracks

/-- After every sequence of steps the log tells the truth about the desk. -/
theorem tracks_run {σ : Type} (store : Store σ) (credential : Credential σ) (steps : List Step) :
    Tracks (Ledger.run store credential steps) := by
  induction steps using List.reverseRecOn with
  | nil => exact .new credential
  | append_singleton steps s ih =>
      rw [Ledger.run_append_one]
      exact ih.step store s

end Relay

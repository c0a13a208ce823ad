import Mathlib.Data.List.Nodup
import Relay.Proofs.Controller.Flight

/-!
# Who gets to run

The button is a lock that the accelerator does not respect.  What is left of mutual exclusion is
an order: of the runs in flight only the oldest can be the button's, although accelerator runs
that overlapped it can outlive it.  `Flying.exclusive` carries this through every start and every
completion.

The rest is about one run at a time.  `Course` lists what can become of a run; from it follows
that a run that completes had its request handed over once and answers once, and that a run whose
trigger was disabled does nothing at all.

Reports are filed under names.  Where no name is used for two runs, one request at most goes out under
a name, and so the report under it is the reply to that request.
-/

namespace Relay

/-! ## The course of one run -/

/-- What can have become of run `n`. -/
inductive Course (n : Nat) : Log → Prop
  | unknown : Course n []
  | asked (name : String) : Course n [.asked n name]
  | ignored (name : String) : Course n [.asked n name, .ignored n .button]
  | declined (name : String) : Course n [.asked n name, .ignored n .button, .declined n]
  | accepted (name : String) (t : Trigger) (r : Request) :
      Course n [.asked n name, .accepted n t r]
  | invoked (name : String) (t : Trigger) (r : Request) :
      Course n [.asked n name, .accepted n t r, .did (some n) (.invoke r)]
  | completed (name : String) (t : Trigger) (r : Request) (o : Outcome) :
      Course n [.asked n name, .accepted n t r, .did (some n) (.invoke r), .completed n name r o]

/-- Lines about another run, or about none, are not in the course of a run. -/
theorem Course.append {n m : Nat} {log more : Log} (h : Course n (Log.course n log))
    (hm : m ≠ n) (hmore : ∀ x ∈ more, x.run? = some m) : Course n (Log.course n (log ++ more)) := by
  have hnil : Log.course n more = [] :=
    Log.course_eq_nil fun x hx => by rw [hmore x hx, Ne, Option.some.injEq]; exact hm
  rw [Log.course_append, hnil, List.append_nil]
  exact h

theorem Written.course {log : Log} {k : Nat} (h : Written log k) (n : Nat) :
    Course n (Log.course n log) := by
  -- every constructor writes about one run at most; the course of any other stays as it was
  induction h with
  | nil => exact .unknown
  | ask m name _ hcourse ih =>
      by_cases hm : m = n
      · subst hm
        simpa [hcourse, Note.marks, Note.run?] using Course.asked name
      · exact ih.append hm (by simp [Note.run?])
  | @accept log k m name t r _ hcourse _ ih =>
      by_cases hm : m = n
      · subst hm
        simpa [hcourse, Note.marks, Note.run?] using Course.accepted name t r
      · exact ih.append hm (by simp [Log.deeds, Note.run?])
  | @ignore log k m name _ hcourse _ ih =>
      by_cases hm : m = n
      · subst hm
        simpa [hcourse, Note.marks, Note.run?] using Course.ignored name
      · exact ih.append hm (by simp [Note.run?])
  | @invoke log k m name t r _ hcourse ih =>
      by_cases hm : m = n
      · subst hm
        simpa [hcourse, Note.marks, Note.run?] using Course.invoked name t r
      · exact ih.append hm (by simp [Note.run?])
  | file name rep _ ih => simpa [Note.marks, Note.run?] using ih
  | @complete log k m name t r rep _ hcourse _ ih =>
      by_cases hm : m = n
      · subst hm
        simpa [hcourse, Note.marks, Note.run?] using Course.completed name t r rep.outcome
      · refine ih.append hm ?_
        intro x hx
        rcases List.mem_append.mp hx with hx | hx
        · obtain ⟨e, -, rfl⟩ := List.mem_map.mp hx
          rfl
        · rw [List.mem_singleton.mp hx]
          rfl
  | @decline log k m name _ hcourse ih =>
      by_cases hm : m = n
      · subst hm
        simpa [hcourse, Note.marks, Note.run?] using Course.declined name
      · exact ih.append hm (by simp [Note.run?])
  | clear _ ih => simpa [Note.marks, Note.run?] using ih

/-! ## Calls and answers -/

namespace Note

/-- The request that run `n` hands over. -/
def call? (n : Nat) : Note → Option Request
  | did (some m) (.invoke r) => if m = n then some r else none
  | _ => none

/-- What run `n` answers: an outcome or that there is none. -/
def answer? (n : Nat) : Note → Option (Option Outcome)
  | completed m _ _ o => if m = n then some (some o) else none
  | declined m => if m = n then some none else none
  | _ => none

end Note

namespace Log

/-- The requests that run `n` handed to the executor. -/
def calls (n : Nat) (log : Log) : List Request := log.filterMap (Note.call? n)

/-- What run `n` answered. -/
def answers (n : Nat) (log : Log) : List (Option Outcome) := log.filterMap (Note.answer? n)

/-- What is read only off the stages of a run can be read off its course. -/
theorem filterMap_course {α : Type} {n : Nat} {f : Note → Option α}
    (hf : ∀ m : Note, m.marks n = false → f m = none) (log : Log) :
    (course n log).filterMap f = log.filterMap f := by
  rw [course, List.filterMap_filter]
  refine congrArg (List.filterMap · log) (funext fun m => ?_)
  cases hm : m.marks n with
  | false => simp [hf m hm]
  | true => rfl

theorem calls_course (n : Nat) (log : Log) : calls n (course n log) = calls n log := by
  refine filterMap_course ?_ log
  intro m hm
  cases m with
  | did who e =>
      cases e with
      | surface e => cases who <;> rfl
      | invoke r =>
          cases who with
          | none => rfl
          | some k => simpa [Note.marks, Note.run?, Note.call?] using hm
  | _ => rfl

theorem answers_course (n : Nat) (log : Log) : answers n (course n log) = answers n log := by
  refine filterMap_course ?_ log
  intro m hm
  cases m with
  | completed k name r o => simpa [Note.marks, Note.run?, Note.answer?] using hm
  | declined k => simpa [Note.marks, Note.run?, Note.answer?] using hm
  | _ => rfl

end Log

/-! ## Nothing comes from nowhere -/

/-- What a line has behind it: a run that does something was accepted before, and one that
completes takes the report on file under the name by which it was asked for. -/
def Note.Grounded (past : Log) : Note → Prop
  | .did (some n) _ => ∃ t r, .accepted n t r ∈ past
  | .completed n name r o =>
    .asked n name ∈ past ∧ (∃ t, .accepted n t r ∈ past) ∧
      ∃ rep, Log.filed name past = some rep ∧ o = rep.outcome
  | _ => True

namespace Log

/-- Every line of `log`, written after `past`, has what it needs behind it. -/
def Grounded (past : Log) : Log → Prop
  | [] => True
  | m :: log => m.Grounded past ∧ Grounded (past ++ [m]) log

theorem grounded_append (past log more : Log) :
    Grounded past (log ++ more) ↔ Grounded past log ∧ Grounded (past ++ log) more := by
  induction log generalizing past with
  | nil => simp [Grounded]
  | cons m log ih => simp [Grounded, ih, and_assoc]

theorem grounded_deeds {past : Log} {n : Nat} (h : ∃ t r, .accepted n t r ∈ past)
    (es : List Event) : Grounded past (deeds (some n) es) := by
  induction es generalizing past with
  | nil => trivial
  | cons e es ih =>
      obtain ⟨t, r, hmem⟩ := h
      exact ⟨⟨t, r, hmem⟩, ih ⟨t, r, List.mem_append_left _ hmem⟩⟩

theorem grounded_clear (past : Log) :
    Grounded past (deeds none Controller.clear ++ [.cleared]) := by
  simp [deeds, Controller.clear, Grounded, Note.Grounded]

end Log

theorem Written.grounded {log : Log} {k : Nat} (h : Written log k) : Log.Grounded [] log := by
  induction h with
  | nil => trivial
  | ask n name _ _ ih => exact (Log.grounded_append _ _ _).mpr ⟨ih, trivial, trivial⟩
  | @accept log k n name t r _ _ _ ih =>
      refine (Log.grounded_append _ _ _).mpr ⟨ih, trivial, ?_⟩
      exact Log.grounded_deeds ⟨t, r, by simp⟩ _
  | ignore _ _ _ ih => exact (Log.grounded_append _ _ _).mpr ⟨ih, trivial, trivial⟩
  | @invoke log k n name t r _ hcourse ih =>
      have haccepted : .accepted n t r ∈ Log.course n log := by simp [hcourse]
      refine (Log.grounded_append _ _ _).mpr ⟨ih, ⟨t, r, ?_⟩, trivial⟩
      simpa using (Log.mem_course.mp haccepted).1
  | file name rep _ ih => exact (Log.grounded_append _ _ _).mpr ⟨ih, trivial, trivial⟩
  | @complete log k n name t r rep _ hcourse hfiled ih =>
      have hasked : .asked n name ∈ Log.course n log := by simp [hcourse]
      have haccepted : .accepted n t r ∈ Log.course n log := by simp [hcourse]
      replace hasked := (Log.mem_course.mp hasked).1
      replace haccepted := (Log.mem_course.mp haccepted).1
      refine (Log.grounded_append _ _ _).mpr ⟨ih, (Log.grounded_append _ _ _).mpr ⟨?_, ?_⟩⟩
      · exact Log.grounded_deeds ⟨t, r, haccepted⟩ _
      · have hrep : Log.filed name (log ++ Log.deeds (some n) (r.concluded rep.outcome (k - 1))) =
            some rep := by
          simpa using hfiled
        exact ⟨⟨List.mem_append_left _ hasked, ⟨t, List.mem_append_left _ haccepted⟩,
          rep, hrep, rfl⟩, trivial⟩
  | decline _ _ ih => exact (Log.grounded_append _ _ _).mpr ⟨ih, trivial, trivial⟩
  | clear _ ih => exact (Log.grounded_append _ _ _).mpr ⟨ih, Log.grounded_clear _⟩

/-- Any line of a log, with the lines before it. -/
theorem Written.grounded_line {before after : Log} {m : Note} {k : Nat}
    (h : Written (before ++ m :: after) k) : m.Grounded before := by
  have hsplit := ((Log.grounded_append [] before (m :: after)).mp h.grounded).2
  simpa using hsplit.1

/-! ## What a trigger meets -/

/-- The trigger that a step pulls: code is claimed for when it is asked for, a file when its run
first gets to go. -/
def Desk.triggered {σ : Type} (d : Desk σ) : Step → Option Trigger
  | .runCode _ t _ => some t
  | .poll name =>
    match d.runs.lookup name with
    | some (.planned t _ _) => some t
    | _ => none
  | _ => none

theorem Ledger.mem_ended {n : Nat} {name : String} {run : Run} {answer : Answer} {m : Note}
    (h : m ∈ Ledger.ended n name run answer) :
    (∃ r o, m = .completed n name r o) ∨ m = .declined n := by
  unfold Ledger.ended at h
  split at h
  · next o =>
    obtain ⟨r, -, rfl⟩ := Option.map_eq_some_iff.mp (Option.mem_toList.mp h)
    exact .inl ⟨r, o, rfl⟩
  · exact .inr (List.mem_singleton.mp h)
  · cases h

namespace Tracks

variable {σ : Type} {l : Ledger σ}

/-- A trigger that the controller takes starts a run. -/
theorem accepted_added (store : Store σ) (h : Tracks l) {s : Step} {t : Trigger}
    (ht : l.desk.triggered s = some t) (hc : l.desk.controller.accepts t = true) :
    (∃ n r, .accepted n t r ∈ l.added store s) ∧ ∀ n t', .ignored n t' ∉ l.added store s := by
  cases s with
  | runCode name t' code =>
      obtain rfl := Option.some.inj ht
      rw [Ledger.added_runCode store hc]
      exact ⟨⟨_, _, List.mem_cons_of_mem _ (List.mem_cons_self ..)⟩, by simp [Log.deeds]⟩
  | poll name =>
      simp only [Desk.triggered] at ht
      split at ht
      · rename_i t' o f hrun
        obtain rfl := Option.some.inj ht
        obtain ⟨n, hn, -⟩ := h.held name _ hrun
        -- the ledger tells a refusal from the answer, which a run that has its place never gives
        have hanswer : (l.desk.step store (.poll name)).2.1 ≠ .ready none := by
          have hput : (Desk.put name (.accepted (.onFile f o)) l.desk.runs).lookup name =
              some (.accepted (.onFile f o)) := by simp
          have hnext := Desk.answer_poll_of_accepted
            (d := ⟨l.desk.controller.claim, _, l.desk.reports⟩) hput
          rw [Desk.step, Desk.poll_planned hrun hc rfl]
          exact hnext
        simp only [Ledger.added, Ledger.lines, hn, hrun, Ledger.claimed, if_neg hanswer]
        refine ⟨⟨n, .onFile f o, by simp⟩, ?_⟩
        intro k t' hmem
        simp only [List.append_assoc, List.mem_append, List.mem_singleton, List.mem_map] at hmem
        rcases hmem with hmem | ⟨e, -, hmem⟩ | hmem
        · cases hmem
        · cases hmem
        · rcases Ledger.mem_ended hmem with ⟨r, o, hm⟩ | hm <;> cases hm
      · cases ht
  | _ => cases ht

/-- A trigger that the controller does not take does nothing. -/
theorem ignored_added (store : Store σ) (h : Tracks l) {s : Step} {t : Trigger}
    (ht : l.desk.triggered s = some t) (hc : l.desk.controller.accepts t = false) :
    (∃ n, .ignored n t ∈ l.added store s) ∧ (∀ n t' r, .accepted n t' r ∉ l.added store s) ∧
      (l.desk.step store s).2.2 = [] ∧
      ∀ name, s = .poll name → (l.desk.step store s).2.1 = .ready none := by
  cases s with
  | runCode name t' code =>
      obtain rfl := Option.some.inj ht
      rw [Ledger.added_runCode_busy store hc, Desk.step_runCode_busy store hc]
      exact ⟨⟨_, List.mem_cons_of_mem _ (List.mem_cons_self ..)⟩, by simp, rfl, by simp⟩
  | poll name =>
      simp only [Desk.triggered] at ht
      split at ht
      · rename_i t' o f hrun
        obtain rfl := Option.some.inj ht
        obtain ⟨n, hn, -⟩ := h.held name _ hrun
        have hpoll : l.desk.step store (.poll name) =
            ({ l.desk with runs := Desk.without name l.desk.runs }, .ready none, []) :=
          Desk.poll_planned_busy hrun hc
        simp only [Ledger.added, Ledger.lines, hn, hrun, hpoll, Ledger.claimed, Ledger.ended]
        exact ⟨⟨n, by simp⟩, by simp, trivial, fun _ _ => trivial⟩
      · cases ht
  | _ => cases ht

/-- The button is taken exactly when nothing is in flight, the accelerator always; a trigger that
is not taken is told so when its run is polled, and nothing happens. -/
theorem decision (store : Store σ) (h : Tracks l) {s : Step} {t : Trigger}
    (ht : l.desk.triggered s = some t) :
    ((∃ n r, .accepted n t r ∈ l.added store s) ↔
      t = .accelerator ∨ l.desk.controller.inFlight = 0) ∧
    ((∃ n, .ignored n t ∈ l.added store s) ↔ t = .button ∧ l.desk.controller.inFlight ≠ 0) ∧
    (t = .button ∧ l.desk.controller.inFlight ≠ 0 → (l.desk.step store s).2.2 = [] ∧
      ∀ name, s = .poll name → (l.desk.step store s).2.1 = .ready none) := by
  cases hc : l.desk.controller.accepts t with
  | true =>
      obtain ⟨haccepted, hignored⟩ := h.accepted_added store ht hc
      have hfree := Controller.accepts_iff.mp hc
      have hnot : ¬ (t = .button ∧ l.desk.controller.inFlight ≠ 0) := by
        rintro ⟨rfl, hbusy⟩
        rcases hfree with hzero | haccelerator
        · exact hbusy hzero
        · cases haccelerator
      refine ⟨⟨fun _ => hfree.symm, fun _ => haccepted⟩, ⟨?_, fun hb => absurd hb hnot⟩,
        fun hb => absurd hb hnot⟩
      rintro ⟨n, hn⟩
      exact absurd hn (hignored n t)
  | false =>
      obtain ⟨hignored, haccepted, hnothing⟩ := h.ignored_added store ht hc
      obtain ⟨hbusy, rfl⟩ := Controller.not_accepts hc
      refine ⟨⟨?_, ?_⟩, ⟨fun _ => ⟨rfl, hbusy⟩, fun _ => hignored⟩, fun _ => hnothing⟩
      · rintro ⟨n, r, hr⟩
        exact absurd hr (haccepted n .button r)
      · rintro (haccelerator | hzero)
        · cases haccelerator
        · exact absurd hzero hbusy

end Tracks

/-! ## Exclusion -/

namespace Flying

variable {log : Log} {k : Nat}

theorem head_of_button (h : Flying log k) {x : Ticket} (hx : x ∈ Log.unfinished log)
    (hbutton : x.trigger = .button) : (Log.unfinished log).head? = some x := by
  have hexclusive := h.exclusive
  cases hlist : Log.unfinished log with
  | nil => simp [hlist] at hx
  | cons first later =>
      rw [hlist] at hx hexclusive
      rcases List.mem_cons.mp hx with rfl | hx
      · rfl
      · have haccelerator := List.rel_of_pairwise_cons hexclusive hx
        rw [hbutton] at haccelerator
        cases haccelerator

theorem length_filter_button (h : Flying log k) :
    ((Log.unfinished log).filter (·.trigger = .button)).length ≤ 1 := by
  have hexclusive := h.exclusive
  cases hlist : Log.unfinished log with
  | nil => simp
  | cons first later =>
      rw [hlist] at hexclusive
      have hlater : later.filter (·.trigger = .button) = [] := by
        rw [List.filter_eq_nil_iff]
        intro x hx
        rw [List.rel_of_pairwise_cons hexclusive hx]
        decide
      rw [List.filter_cons, hlater]
      split <;> simp

end Flying

theorem Log.ignored_mem_course {log : Log} {n : Nat} {t : Trigger} (h : .ignored n t ∈ log) :
    .ignored n t ∈ Log.course n log :=
  Log.mem_course.mpr ⟨h, by simp [Note.marks, Note.run?]⟩

/-- A run whose trigger was disabled is never accepted, and answers at most that there is no
outcome. -/
theorem Course.of_ignored {n : Nat} {c : Log} (h : Course n c) {t : Trigger}
    (hmem : .ignored n t ∈ c) :
    (∀ t' r, .accepted n t' r ∉ c) ∧ ∀ a ∈ Log.answers n c, a = none := by
  cases h with
  | ignored name => simp [Log.answers, Note.answer?]
  | declined name => simp [Log.answers, Note.answer?]
  | _ => simp at hmem

/-- A run that completed has its whole course behind it. -/
theorem Course.of_completed {n : Nat} {c : Log} (h : Course n c) {name : String} {r : Request}
    {o : Outcome} (hmem : .completed n name r o ∈ c) :
    ∃ t, c =
      [.asked n name, .accepted n t r, .did (some n) (.invoke r), .completed n name r o] := by
  cases h with
  | completed name' t r' o' =>
      obtain ⟨rfl, rfl, rfl⟩ : name = name' ∧ r = r' ∧ o = o' := by simpa using hmem
      exact ⟨t, rfl⟩
  | _ => simp at hmem

theorem Written.did_not_mem_of_ignored {log : Log} {k : Nat} (h : Written log k) {n : Nat}
    {t : Trigger} (hmem : .ignored n t ∈ log) (e : Effect) : .did (some n) e ∉ log := by
  intro he
  -- what a run does stands after its acceptance, and no course has that beside a refusal
  obtain ⟨before, after, rfl⟩ := List.append_of_mem he
  obtain ⟨t', r, haccepted⟩ := h.grounded_line
  have ha : .accepted n t' r ∈ Log.course n (before ++ .did (some n) e :: after) :=
    Log.mem_course.mpr ⟨List.mem_append_left _ haccepted, by simp [Note.marks, Note.run?]⟩
  exact ((h.course n).of_ignored (Log.ignored_mem_course hmem)).1 t' r ha

/-- A poll of a run whose trigger was disabled is answered at once, and does nothing. -/
theorem Tracks.poll_of_ignored {σ : Type} {l : Ledger σ} (h : Tracks l) {n : Nat} {t : Trigger}
    {name : String} {run : Run} (hmem : .ignored n t ∈ l.log)
    (hn : Log.holder name l.log = some n) (hrun : l.desk.runs.lookup name = some run) :
    (l.desk.poll name).2 = (.ready none, []) := by
  obtain ⟨m, hm, hstands⟩ := h.held name run hrun
  obtain rfl : n = m := Option.some.inj (hn.symm.trans hm)
  have hi := Log.ignored_mem_course hmem
  cases run with
  | ignored => rw [Desk.poll_ignored hrun]
  | planned t o f =>
      rw [show Log.course n l.log = _ from hstands] at hi
      simp at hi
  | accepted r =>
      obtain ⟨t, hcourse⟩ := hstands
      simp [hcourse] at hi
  | waiting r =>
      obtain ⟨t, hcourse⟩ := hstands
      simp [hcourse] at hi

/-! ## Names that are used once -/

/-- The name under which a step asks for a run. -/
def Step.asksUnder? : Step → Option String
  | .runCode name _ _ | .runFile name _ _ _ => some name
  | _ => none

theorem Log.reported_of_filed {name : String} {log : Log} {rep : Report}
    (h : Log.filed name log = some rep) : .reported name rep ∈ log := by
  induction log using List.reverseRecOn with
  | nil => cases h
  | append_singleton log m ih =>
      -- a line leaves the file as it is, or is the report, or empties it
      have hkept : Log.filed name log = some rep → .reported name rep ∈ log ++ [m] :=
        fun hlog => List.mem_append_left _ (ih hlog)
      rw [Log.filed_append] at h
      cases m with
      | reported other r =>
          by_cases ho : other = name
          · obtain rfl : r = rep := by simpa [Log.refile, ho] using h
            simp [ho]
          · exact hkept (by simpa [Log.refile, ho] using h)
      | completed n other r o =>
          by_cases ho : other = name
          · simp [Log.refile, ho] at h
          · exact hkept (by simpa [Log.refile, ho] using h)
      | _ => exact hkept h

namespace Ledger

variable {σ : Type}

/-- A run that gets to go neither asks for one nor brings a report. -/
theorem of_mem_added_poll (store : Store σ) {l : Ledger σ} {name : String} {m : Note}
    (h : m ∈ l.added store (.poll name)) :
    m.isAsked = false ∧ ∀ other rep, m ≠ .reported other rep := by
  simp only [added, lines] at h
  split at h
  · next n run _ _ =>
    simp only [List.append_assoc, List.mem_append, List.mem_map] at h
    rcases h with h | ⟨e, -, rfl⟩ | h
    · cases run with
      | planned t o f =>
          rw [claimed, List.mem_singleton] at h
          split at h <;> simp [h, Note.isAsked]
      | _ => cases h
    · simp [Note.isAsked]
    · rcases mem_ended h with ⟨r, o, rfl⟩ | rfl <;> simp [Note.isAsked]
  · obtain ⟨e, -, rfl⟩ := List.mem_map.mp h
    simp [Note.isAsked]

theorem length_askedUnder_added (store : Store σ) (l : Ledger σ) (s : Step) (name : String) :
    ((l.added store s).filterMap (Note.askedUnder? name)).length = s.asksUnder?.toList.count name := by
  -- the first line asks for the run, and no later one does
  have hasked : ∀ (n : Nat) (other : String) {more : Log}, (∀ m ∈ more, m.isAsked = false) →
      ((.asked n other :: more).filterMap (Note.askedUnder? name)).length = [other].count name := by
    intro n other more hmore
    by_cases ho : other = name <;>
      simp [Note.askedUnder?, ho, Log.filterMap_askedUnder name hmore]
  have hnone : ∀ {more : Log}, (∀ m ∈ more, m.isAsked = false) →
      (more.filterMap (Note.askedUnder? name)).length = 0 := by
    intro more hmore
    rw [Log.filterMap_askedUnder name hmore, List.length_nil]
  cases s with
  | runCode other t code =>
      cases hc : l.desk.controller.accepts t with
      | true =>
          rw [added_runCode store hc]
          exact hasked _ other (by simp [Log.deeds, Note.isAsked])
      | false =>
          rw [added_runCode_busy store hc]
          exact hasked _ other (by simp [Note.isAsked])
  | runFile other t o f => exact hasked _ other (by simp [Desk.step])
  | poll other => exact hnone fun m hm => (of_mem_added_poll store hm).1
  | _ => exact hnone (by simp [added, lines, Desk.step, Controller.clear, Note.isAsked])

/-- A log tells of as many runs under a name as were asked for under it. -/
theorem length_askedUnder (store : Store σ) (credential : Credential σ) (steps : List Step)
    (name : String) :
    ((run store credential steps).log.filterMap (Note.askedUnder? name)).length =
      (steps.filterMap Step.asksUnder?).count name := by
  induction steps using List.reverseRecOn with
  | nil => rfl
  | append_singleton steps s ih =>
      have hlog : (run store credential (steps ++ [s])).log =
          (run store credential steps).log ++ (run store credential steps).added store s := by
        rw [run_append_one]
        rfl
      have hone : [s].filterMap Step.asksUnder? = s.asksUnder?.toList := by
        cases hs : s.asksUnder? <;> simp [hs]
      rw [hlog, List.filterMap_append, List.length_append, ih, length_askedUnder_added,
        List.filterMap_append, List.count_append, hone]

/-- A report in a log is one that was brought. -/
theorem report_of_reported (store : Store σ) (credential : Credential σ) {steps : List Step}
    {name : String} {rep : Report}
    (h : .reported name rep ∈ (run store credential steps).log) : .report name rep ∈ steps := by
  induction steps using List.reverseRecOn with
  | nil => cases h
  | append_singleton steps s ih =>
      rw [run_append_one] at h
      rcases List.mem_append.mp h with h | h
      · exact List.mem_append_left _ (ih h)
      · generalize run store credential steps = l at h
        refine List.mem_append_right _ (List.mem_singleton.mpr ?_)
        cases s with
        | report other r =>
            obtain ⟨rfl, rfl⟩ : name = other ∧ rep = r := by simpa [added, lines, Desk.step] using h
            rfl
        | poll other => exact absurd rfl ((of_mem_added_poll store h).2 name rep)
        | runCode other t code =>
            cases hc : l.desk.controller.accepts t with
            | true => simp [added_runCode store hc, Log.deeds] at h
            | false => simp [added_runCode_busy store hc] at h
        | _ => simp [added, lines, Desk.step] at h

/-- Where no name is used for two runs, a run is the only one under its name. -/
theorem askedUnder_of_nodup (store : Store σ) (credential : Credential σ) {steps : List Step}
    (hnames : (steps.filterMap Step.asksUnder?).Nodup) {n : Nat} {name : String}
    (h : .asked n name ∈ (run store credential steps).log) :
    (run store credential steps).log.filterMap (Note.askedUnder? name) = [n] := by
  have hmem : n ∈ (run store credential steps).log.filterMap (Note.askedUnder? name) :=
    List.mem_filterMap.mpr ⟨_, h, if_pos rfl⟩
  have hlength := length_askedUnder store credential steps name
  have hone := List.nodup_iff_count_le_one.mp hnames name
  rw [← hlength] at hone
  obtain ⟨k, hk⟩ := List.length_eq_one_iff.mp (Nat.le_antisymm hone (List.length_pos_of_mem hmem))
  rw [hk] at hmem ⊢
  rw [List.mem_singleton.mp hmem]

end Ledger

/-- After every sequence of steps: the button starts a run exactly when nothing is in flight, and
the accelerator always does.  So at most one run in flight is the button's, and it is older than
every other.  A run whose trigger was disabled answers that there is no outcome, hands nothing to
the executor and shows nothing.  A run that completes has handed over its own request once and has
answered once, with the outcome of the report filed under its own name.  If no name was used for two
runs, its request is the only one that went out under the name, so that the report is the reply to it. -/
theorem trigger_exclusion {σ : Type} (store : Store σ) (credential : Credential σ)
    (steps : List Step) :
    let l := Ledger.run store credential steps
    (∀ s t, l.desk.triggered s = some t →
      ((∃ n r, .accepted n t r ∈ l.added store s) ↔
        t = .accelerator ∨ l.desk.controller.inFlight = 0) ∧
      ((∃ n, .ignored n t ∈ l.added store s) ↔
        t = .button ∧ l.desk.controller.inFlight ≠ 0) ∧
      (t = .button ∧ l.desk.controller.inFlight ≠ 0 → (l.desk.step store s).2.2 = [] ∧
        ∀ name, s = .poll name → (l.desk.step store s).2.1 = .ready none)) ∧
    ((Log.unfinished l.log).filter (·.trigger = .button)).length ≤ 1 ∧
    (∀ x ∈ Log.unfinished l.log, x.trigger = .button →
      (Log.unfinished l.log).head? = some x) ∧
    (∀ n t, .ignored n t ∈ l.log →
      (∀ e, .did (some n) e ∉ l.log) ∧ (∀ a ∈ Log.answers n l.log, a = none) ∧
      ∀ name run, Log.holder name l.log = some n → l.desk.runs.lookup name = some run →
        (l.desk.step store (.poll name)).2 = (.ready none, [])) ∧
    (∀ before after n name r o, l.log = before ++ .completed n name r o :: after →
      Log.calls n l.log = [r] ∧ Log.answers n l.log = [some o] ∧
      .asked n name ∈ before ∧ (∃ t, .accepted n t r ∈ before) ∧
      ∃ rep, Log.filed name before = some rep ∧ o = rep.outcome) ∧
    ((steps.filterMap Step.asksUnder?).Nodup → ∀ n name r o, .completed n name r o ∈ l.log →
      (l.log.filterMap (Note.askedUnder? name)).flatMap (Log.calls · l.log) = [r] ∧
      ∃ rep, .report name rep ∈ steps ∧ o = rep.outcome) := by
  intro l
  have h : Tracks l := tracks_run store credential steps
  have hcalls : ∀ n name r o, .completed n name r o ∈ l.log →
      Log.calls n l.log = [r] ∧ Log.answers n l.log = [some o] := by
    intro n name r o hlog
    have hmem : .completed n name r o ∈ Log.course n l.log :=
      Log.mem_course.mpr ⟨hlog, by simp [Note.marks, Note.run?]⟩
    obtain ⟨t, hcourse⟩ := (h.written.course n).of_completed hmem
    refine ⟨?_, ?_⟩
    · rw [← Log.calls_course, hcourse]
      simp [Log.calls, List.filterMap_cons, Note.call?]
    · rw [← Log.answers_course, hcourse]
      simp [Log.answers, List.filterMap_cons, Note.answer?]
  refine ⟨?_, h.written.flying.length_filter_button, ?_, ?_, ?_, ?_⟩
  · intro s t ht
    exact h.decision store ht
  · intro x hx hbutton
    exact h.written.flying.head_of_button hx hbutton
  · intro n t hmem
    refine ⟨h.written.did_not_mem_of_ignored hmem, ?_, ?_⟩
    · rw [← Log.answers_course]
      exact ((h.written.course n).of_ignored (Log.ignored_mem_course hmem)).2
    · intro name run hn hrun
      exact h.poll_of_ignored hmem hn hrun
  · intro before after n name r o hlog
    obtain ⟨hcall, hanswer⟩ := hcalls n name r o (by simp [hlog])
    exact ⟨hcall, hanswer, (hlog ▸ h.written).grounded_line⟩
  · intro hnames n name r o hmem
    obtain ⟨before, after, hlog⟩ := List.append_of_mem hmem
    obtain ⟨hasked, -, rep, hfiled, ho⟩ := (hlog ▸ h.written).grounded_line
    have hbefore : ∀ m ∈ before, m ∈ l.log := fun m hm => by rw [hlog]; exact List.mem_append_left _ hm
    refine ⟨?_, rep, ?_, ho⟩
    · rw [Ledger.askedUnder_of_nodup store credential hnames (hbefore _ hasked),
        List.flatMap_singleton, (hcalls n name r o hmem).1]
    · exact Ledger.report_of_reported store credential
        (hbefore _ (Log.reported_of_filed hfiled))

/-- The button's run is outlived by the accelerator's; the second press finds it in flight.  No name is
used twice, so what is reported under the first is the reply to its one request. -/
theorem trigger_exclusion_overlap :
    let steps : List Step := [.runCode "a" .button "1", .runCode "b" .button "2",
      .runCode "c" .accelerator "3", .poll "a", .report "a" .blank, .poll "a"]
    let l := Ledger.run memoryStore ⟨"", []⟩ steps
    (∃ after before, l.log = before ++
        .completed 0 "a" (.typed "1" none) Report.blank.outcome :: after) ∧
      Log.calls 0 l.log = [.typed "1" none] ∧
      Log.answers 0 l.log = [some Report.blank.outcome] ∧ (∀ e, .did (some 4) e ∉ l.log) ∧
      (l.log.filterMap (Note.askedUnder? "a")).flatMap (Log.calls · l.log) = [.typed "1" none] := by
  intro steps l
  have hlog : l.log = l.log.dropLast ++
      .completed 0 "a" (.typed "1" none) Report.blank.outcome :: [] := by decide
  obtain ⟨-, -, -, hignored, hcompleted, hown⟩ := trigger_exclusion memoryStore ⟨"", []⟩ steps
  refine ⟨⟨[], _, hlog⟩, (hcompleted _ _ _ _ _ _ hlog).1, (hcompleted _ _ _ _ _ _ hlog).2.1, ?_, ?_⟩
  · exact (hignored 4 .button (by decide)).1
  · exact (hown (by decide) 0 "a" _ Report.blank.outcome (by rw [hlog]; simp)).1

end Relay

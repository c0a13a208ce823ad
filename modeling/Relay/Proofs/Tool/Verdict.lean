import Mathlib.Data.List.Pairwise
import Mathlib.Data.List.TakeWhile
import Relay.Proofs.Tool.Capture
import Relay.Tool.Invoke

/-!
# When a run of the tool is a success

A process ends well when both its streams come to their end within the limit and it exits with 0,
all before the time limit comes.  `judge_isSuccess_iff` says that what is reported of a process is
a success exactly then, in whatever order its signals come.

`Caused` is what is missing from `Concluded` for the way back: a watch that has not ended still
waits for something, and one that ended badly has heeded a signal that says why.
-/

namespace Relay

/-- What is seen before the time limit comes. -/
def inTime (signals : List Signal) : List Signal := signals.takeWhile (· ≠ .timeout)

/-- In time, both streams came to their end with at most `limit` octets each, and the process
exited with 0. -/
def EndedWell (limit : Nat) (signals : List Signal) : Prop :=
  (∀ s, .closed s ∈ inTime signals ∧ (sent s (inTime signals)).length ≤ limit) ∧
    .ended (some 0) ∈ inTime signals

theorem mem_of_mem_inTime {x : Signal} {signals : List Signal} (h : x ∈ inTime signals) :
    x ∈ signals :=
  (List.takeWhile_prefix _).subset h

theorem timeout_not_mem_inTime (signals : List Signal) : .timeout ∉ inTime signals := by
  intro hmem
  have htrue := List.mem_takeWhile_imp hmem
  simp at htrue

/-- Signals that start what is seen, and are not the time limit, come in time. -/
theorem isPrefix_inTime {xs signals : List Signal} (h : xs <+: signals ++ [.timeout])
    (hnot : .timeout ∉ xs) : xs <+: inTime signals := by
  induction signals generalizing xs with
  | nil =>
      cases xs with
      | nil => exact List.nil_prefix
      | cons x xs =>
          have hx : x = .timeout := (List.cons_prefix_cons.mp h).1
          exact absurd (hx ▸ List.mem_cons_self) hnot
  | cons y signals ih =>
      cases xs with
      | nil => exact List.nil_prefix
      | cons x xs =>
          obtain ⟨rfl, hrest⟩ := List.cons_prefix_cons.mp h
          have hx : x ≠ .timeout := fun hx => hnot (hx ▸ List.mem_cons_self)
          have htail : xs <+: inTime signals := ih hrest (List.not_mem_of_not_mem_cons hnot)
          simpa [inTime, hx] using htail

/-- Two signals that bar each other are one. -/
theorem Observation.eq_of_bars (seen : Observation) {x y : Signal} (hx : x ∈ seen.signals)
    (hy : y ∈ seen.signals) (hxy : x.bars y = true) (hyx : y.bars x = true) : x = y := by
  by_contra hne
  have hpair : seen.signals.Pairwise fun x y => ¬ (x.bars y = true ∧ y.bars x = true) :=
    seen.orderly.imp fun hfalse hboth => by simp [hfalse] at hboth
  have hsymm : Std.Symm fun x y : Signal => ¬ (x.bars y = true ∧ y.bars x = true) :=
    ⟨fun x y h hboth => h hboth.symm⟩
  exact hpair.forall hx hy hne ⟨hxy, hyx⟩

theorem mem_of_exitOf {signals : List Signal} {code : Option Int}
    (h : exitOf signals = some code) : .ended code ∈ signals := by
  obtain ⟨x, hx, hexit⟩ := List.mem_filterMap.mp (List.mem_of_getLast? h)
  cases x with
  | ended c =>
      obtain rfl : c = code := Option.some.inj hexit
      exact hx
  | _ => cases hexit

theorem exitOf_ne_none {signals : List Signal} {code : Option Int} (h : .ended code ∈ signals) :
    exitOf signals ≠ none := by
  intro hnone
  have hmem : code ∈ signals.filterMap Signal.exit? := List.mem_filterMap.mpr ⟨_, h, rfl⟩
  rw [List.getLast?_eq_none_iff.mp hnone] at hmem
  cases hmem

namespace Watch

/-! ## Why a watch ends -/

/-- A single signal leaves the watch going, or is the reason why it does not. -/
theorem result_receive_cases (limit : Nat) {w : Watch} (hgoing : w.result = none) (x : Signal) :
    (w.receive limit x).result = none ∨
      ((w.receive limit x).result = some .timedOut ∧ x = .timeout) ∨
      ∃ failure, (w.receive limit x).result = some (.failed failure) ∧
        ((∃ s, x = .readFailed s failure) ∨ x = .waitFailed failure) := by
  cases x with
  | read s octets =>
      left
      cases s <;> simp only [receive] <;> split <;> simp [setStream, hgoing]
  | closed s =>
      left
      cases s <;> simp only [receive] <;> split <;> simp [setStream, hgoing]
  | readFailed s failure =>
      simp only [receive]
      split
      · exact .inr (.inr ⟨failure, rfl, .inl ⟨s, rfl⟩⟩)
      · exact .inl hgoing
  | ended code => exact .inl hgoing
  | waitFailed failure =>
      simp only [receive]
      split
      · exact .inl hgoing
      · exact .inr (.inr ⟨failure, rfl, .inr rfl⟩)
  | timeout => exact .inr (.inl ⟨rfl, rfl⟩)

theorem going_of_settle {w : Watch} (h : w.settle.result = none) :
    w.settle = w ∧ (w.reading = true ∨ w.process = none) := by
  cases hread : w.reading with
  | true => exact ⟨by simp [settle, hread], .inl rfl⟩
  | false =>
      cases hprocess : w.process with
      | none => exact ⟨by simp [settle, hread, hprocess], .inr rfl⟩
      | some code => simp [settle, hread, hprocess] at h

/-- Why a watch goes on or ended badly, in terms of the signals it has heeded. -/
structure Caused (signals : List Signal) (w : Watch) : Prop where
  going : w.result = none → w.reading = true ∨ w.process = none
  timedOut : w.result = some .timedOut → .timeout ∈ signals
  failed : ∀ failure, w.result = some (.failed failure) →
    (∃ s, .readFailed s failure ∈ signals) ∨ .waitFailed failure ∈ signals

namespace Caused

variable {limit : Nat} {signals : List Signal} {w : Watch}

theorem step (hgoing : w.result = none) (x : Signal) :
    Caused (signals ++ [x]) (w.step limit x) := by
  have hlast : x ∈ signals ++ [x] := by simp
  obtain hnone | ⟨hresult, rfl⟩ | ⟨failure, hresult, hx⟩ :=
    result_receive_cases limit hgoing x
  · have hstep : w.step limit x = (w.receive limit x).settle := by
      simp only [Watch.step, hgoing, hnone]
    rw [hstep]
    obtain hsame | ⟨code, -, -, hended⟩ := settle_cases (w.receive limit x)
    · refine ⟨?_, by simp [hsame, hnone], by simp [hsame, hnone]⟩
      intro h
      rw [hsame]
      exact (going_of_settle h).2
    · exact ⟨by simp [hended], by simp [hended], by simp [hended]⟩
  · have hstep : w.step limit .timeout = w.receive limit .timeout := by
      simp only [Watch.step, hgoing, hresult]
    rw [hstep]
    exact ⟨by simp [hresult], fun _ => hlast, by simp [hresult]⟩
  · have hstep : w.step limit x = w.receive limit x := by
      simp only [Watch.step, hgoing, hresult]
    rw [hstep]
    refine ⟨by simp [hresult], by simp [hresult], ?_⟩
    intro failure' h
    rw [hresult] at h
    cases h
    obtain ⟨s, rfl⟩ | rfl := hx
    · exact .inl ⟨s, hlast⟩
    · exact .inr hlast

theorem start : Caused [] Watch.start := ⟨fun _ => .inl rfl, nofun, nofun⟩

theorem run (limit : Nat) (signals : List Signal) :
    Caused (heeded limit Watch.start signals) (Watch.run limit signals) := by
  exact foldl_keeps (P := Caused) (fun past w x hgoing _ => step hgoing x) start signals

end Caused

/-! ## How far a watch goes -/

/-- A watch that goes on has heeded everything. -/
theorem heeded_of_going {limit : Nat} {w : Watch} {xs : List Signal}
    (h : (xs.foldl (step limit) w).result = none) : heeded limit w xs = xs := by
  induction xs generalizing w with
  | nil => rfl
  | cons x xs ih =>
      cases hresult : w.result with
      | some e =>
          rw [foldl_of_result (by rw [hresult]; rfl), hresult] at h
          cases h
      | none =>
          have hrest : heeded limit (w.step limit x) xs = xs := ih h
          simp [heeded, hresult, hrest]

/-- Once the time limit has come, every watch has ended. -/
theorem result_of_timeout (limit : Nat) (signals : List Signal) :
    ∃ e, (run limit (signals ++ [.timeout])).result = some e := by
  have hrun : run limit (signals ++ [.timeout]) = (run limit signals).step limit .timeout := by
    simp [run]
  rw [hrun]
  cases hresult : (run limit signals).result with
  | some e =>
      refine ⟨e, ?_⟩
      rw [step_of_result (by rw [hresult]; rfl)]
      exact hresult
  | none => exact ⟨.timedOut, by simp [step, hresult, receive]⟩

theorem run_append_of_result {limit : Nat} {xs : List Signal} {e : WatchEnd}
    (h : (run limit xs).result = some e) (ys : List Signal) :
    run limit (xs ++ ys) = run limit xs := by
  unfold run
  rw [List.foldl_append]
  exact foldl_of_result (by rw [show (xs.foldl (step limit) start).result = some e from h]; rfl) ys

/-! ## A good end -/

/-- A watch that ends well has seen a process that ended well. -/
theorem endedWell_of_run {limit : Nat} {signals : List Signal}
    (hresult : (run limit (signals ++ [.timeout])).result = some (.ended (some 0)))
    (hover : (run limit (signals ++ [.timeout])).overflow = false) : EndedWell limit signals := by
  have hf := Faithful.run limit (signals ++ [.timeout])
  have hc := Concluded.run limit (signals ++ [.timeout])
  have hnot : .timeout ∉ heeded limit start (signals ++ [.timeout]) := by
    intro hmem
    rw [hc.timeout hmem] at hresult
    cases hresult
  obtain ⟨rest, hrest⟩ := isPrefix_inTime (heeded_isPrefix limit start _) hnot
  refine ⟨?_, ?_⟩
  · intro s
    obtain ⟨hclosed, hkept⟩ := hf.whole_of_ended hc hresult hover s
    rw [← hrest, sent_append_of_closed hclosed, ← hkept]
    exact ⟨List.mem_append_left _ hclosed, hf.bounded s⟩
  · have hexit := (hc.ended _ hresult).2
    rw [hc.exit] at hexit
    rw [← hrest]
    exact List.mem_append_left _ (mem_of_exitOf hexit)

/-- A process that ended well has a watch that ends well, before the time limit. -/
theorem run_inTime {limit : Nat} {seen : Observation} (h : EndedWell limit seen.signals) :
    (run limit (inTime seen.signals)).result = some (.ended (some 0)) ∧
      (run limit (inTime seen.signals)).overflow = false := by
  obtain ⟨hstreams, hended⟩ := h
  have hf := Faithful.run limit (inTime seen.signals)
  have hc := Concluded.run limit (inTime seen.signals)
  have hcause := Caused.run limit (inTime seen.signals)
  obtain ⟨rest, hrest⟩ := heeded_isPrefix limit start (inTime seen.signals)
  have hheeded : ∀ x ∈ heeded limit start (inTime seen.signals), x ∈ inTime seen.signals :=
    (heeded_isPrefix limit start _).subset
  have hover : (run limit (inTime seen.signals)).overflow = false := by
    cases ho : (run limit (inTime seen.signals)).overflow with
    | false => rfl
    | true =>
        obtain ⟨s, hs⟩ := hf.exceeded ho
        have hle : (sent s (heeded limit start (inTime seen.signals))).length ≤
            (sent s (inTime seen.signals)).length := by
          conv => rhs; rw [← hrest]
          exact (sent_isPrefix s _ rest).length_le
        have hlimit := (hstreams s).2
        omega
  refine ⟨?_, hover⟩
  cases hresult : (run limit (inTime seen.signals)).result with
  | none =>
      -- everything was heeded, so the watch has nothing left to wait for
      have hall : heeded limit start (inTime seen.signals) = inTime seen.signals :=
        heeded_of_going hresult
      rw [hall] at hf hc
      have hclosed : ∀ s, ((run limit (inTime seen.signals)).stream s).closed = true :=
        fun s => (hf.whole hover s).2.mpr (hstreams s).1
      obtain hread | hprocess := hcause.going hresult
      · have hout := hclosed .out
        have herr := hclosed .err
        simp only [stream] at hout herr
        simp [reading, hout, herr] at hread
      · rw [hc.exit] at hprocess
        exact absurd hprocess (exitOf_ne_none hended)
  | some e =>
      cases e with
      | timedOut =>
          exact absurd (hheeded _ (hcause.timedOut hresult)) (timeout_not_mem_inTime _)
      | failed failure =>
          -- what failed would stand in place of an end that was seen
          obtain ⟨s, hmem⟩ | hmem := hcause.failed failure hresult
          · have heq := seen.eq_of_bars (mem_of_mem_inTime (hheeded _ hmem))
              (mem_of_mem_inTime (hstreams s).1) (by simp [Signal.bars, Signal.endsStream?,
                Signal.stream?]) (by simp [Signal.bars, Signal.endsStream?, Signal.stream?])
            cases heq
          · have heq := seen.eq_of_bars (mem_of_mem_inTime (hheeded _ hmem))
              (mem_of_mem_inTime hended) rfl rfl
            cases heq
      | ended code =>
          have hexit := (hc.ended _ hresult).2
          rw [hc.exit] at hexit
          have heq := seen.eq_of_bars (mem_of_mem_inTime (hheeded _ (mem_of_exitOf hexit)))
            (mem_of_mem_inTime hended) rfl rfl
          cases heq
          rfl

theorem run_ended_iff (limit : Nat) (seen : Observation) :
    (run limit (seen.signals ++ [.timeout])).result = some (.ended (some 0)) ∧
        (run limit (seen.signals ++ [.timeout])).overflow = false ↔
      EndedWell limit seen.signals := by
  constructor
  · rintro ⟨hresult, hover⟩
    exact endedWell_of_run hresult hover
  · intro h
    obtain ⟨hresult, hover⟩ := run_inTime h
    have hsplit : seen.signals ++ [.timeout] =
        inTime seen.signals ++ (seen.signals.dropWhile (· ≠ .timeout) ++ [.timeout]) := by
      rw [← List.append_assoc, inTime, List.takeWhile_append_dropWhile]
    rw [hsplit, run_append_of_result hresult]
    exact ⟨hresult, hover⟩

end Watch

/-- A report on a process is a success exactly when the process ended well. -/
theorem Limits.judge_isSuccess_iff (l : Limits) (seen : Observation) :
    (l.judge seen).outcome.isSuccess = true ↔ EndedWell l.maxOutputBytes.toNat seen.signals := by
  rw [← Watch.run_ended_iff]
  obtain ⟨e, he⟩ := Watch.result_of_timeout l.maxOutputBytes.toNat seen.signals
  obtain ⟨report, hreport⟩ : ∃ report,
      (Watch.run l.maxOutputBytes.toNat (seen.signals ++ [.timeout])).report
        (.ofSeconds l.timeoutSecs.toNat) = some report := by
    simp [Watch.report, he]
  have hjudge : l.judge seen = report := by simp [Limits.judge, hreport]
  rw [hjudge]
  constructor
  · intro hsuccess
    cases houtcome : report.outcome with
    | success text =>
        obtain ⟨hresult, hover, -⟩ := Watch.result_of_success hreport houtcome
        exact ⟨hresult, hover⟩
    | _ => simp [houtcome, Outcome.isSuccess] at hsuccess
  · rintro ⟨hresult, hover⟩
    simp only [Watch.report, hresult, hover, Option.map_some, Option.some.injEq] at hreport
    subst hreport
    rfl

end Relay

import Relay.Outcome.Classify
import Relay.Tool.Capture

/-!
# What a watch keeps

Every interleaving of what a process writes, closes and does, of read errors and of the time limit
is a list of signals.  The list may go on after the watch has ended; the signals up to that point
are those that the watch heeds.

`Faithful` says what the two streams and the overflow flag mean in terms of the signals, and
`Concluded` what the end of a watch means.  Both hold after every step, whatever signal comes, so
they hold of every watch.  A lost tail cannot pass for a success: a watch that ends by the exit of
the process without an overflow has seen both streams close.
-/

namespace Relay

/-- What a process writes to a stream until it closes it. -/
def sent (s : Stream) : List Signal → Bytes
  | [] => []
  | .read t octets :: xs => if t = s then octets ++ sent s xs else sent s xs
  | .closed t :: xs => if t = s then [] else sent s xs
  | _ :: xs => sent s xs

/-- The end of the process that a signal tells of. -/
def Signal.exit? : Signal → Option (Option Int)
  | .ended code => some code
  | _ => none

/-- How the process ended, as far as the signals tell. -/
def exitOf (signals : List Signal) : Option (Option Int) :=
  (signals.filterMap Signal.exit?).getLast?

theorem exitOf_append_one (xs : List Signal) (x : Signal) :
    exitOf (xs ++ [x]) = x.exit?.or (exitOf xs) := by
  cases hx : x.exit? <;> simp [exitOf, hx]

theorem sent_append (s : Stream) (xs ys : List Signal) :
    sent s (xs ++ ys) = sent s xs ++ if .closed s ∈ xs then [] else sent s ys := by
  induction xs with
  | nil => simp [sent]
  | cons x xs ih =>
      cases x with
      | read t octets =>
          by_cases ht : t = s
          · simp [sent, ht, ih, List.append_assoc]
          · simp [sent, ht, ih]
      | closed t =>
          by_cases ht : t = s
          · simp [sent, ht]
          · have hs : ¬ s = t := fun h => ht h.symm
            simp [sent, ht, hs, ih]
      | _ => simp [sent, ih]

theorem sent_isPrefix (s : Stream) (xs ys : List Signal) : sent s xs <+: sent s (xs ++ ys) := by
  rw [sent_append]
  exact List.prefix_append _ _

/-- Nothing comes after the end of a stream. -/
theorem sent_append_of_closed {s : Stream} {xs : List Signal} (h : .closed s ∈ xs)
    (ys : List Signal) : sent s (xs ++ ys) = sent s xs := by
  rw [sent_append, if_pos h, List.append_nil]

/-- One more read leaves the first `limit` octets of all that came. -/
theorem capture_eq {limit : Nat} {kept : Bytes} (h : kept.length ≤ limit) (read : Bytes) :
    capture limit kept read =
      ((kept ++ read).take limit, decide (limit < (kept ++ read).length)) := by
  rw [List.take_append, List.take_of_length_le h, List.length_append]
  by_cases hroom : limit - kept.length < read.length
  · have hlimit : limit < kept.length + read.length := by omega
    simp [capture, hroom, hlimit]
  · have hlimit : ¬ limit < kept.length + read.length := by omega
    have htake : read.take (limit - kept.length) = read := List.take_of_length_le (by omega)
    simp [capture, hroom, hlimit, htake]

/-- Only reads bring anything. -/
theorem sent_append_of_not_read {x : Signal} (hx : ∀ t octets, x ≠ .read t octets) (s : Stream)
    (xs : List Signal) : sent s (xs ++ [x]) = sent s xs := by
  rw [sent_append]
  cases x with
  | read t octets => exact absurd rfl (hx t octets)
  | _ => simp [sent]

namespace Watch

/-! ## The signals that count -/

/-- The signals up to the one that ends the watch. -/
def heeded (limit : Nat) (w : Watch) : List Signal → List Signal
  | [] => []
  | x :: xs => if w.result.isSome then [] else x :: heeded limit (w.step limit x) xs

theorem step_of_result {limit : Nat} {w : Watch} (h : w.result.isSome) (x : Signal) :
    w.step limit x = w := by
  obtain ⟨e, he⟩ := Option.isSome_iff_exists.mp h
  simp [step, he]

theorem heeded_of_result {limit : Nat} {w : Watch} (h : w.result.isSome) (xs : List Signal) :
    heeded limit w xs = [] := by
  cases xs with
  | nil => rfl
  | cons x xs => simp [heeded, h]

theorem foldl_of_result {limit : Nat} {w : Watch} (h : w.result.isSome) (xs : List Signal) :
    xs.foldl (step limit) w = w := by
  induction xs with
  | nil => rfl
  | cons x xs ih => rw [List.foldl_cons, step_of_result h, ih]

theorem heeded_isPrefix (limit : Nat) (w : Watch) (xs : List Signal) :
    heeded limit w xs <+: xs := by
  induction xs generalizing w with
  | nil => exact List.prefix_rfl
  | cons x xs ih =>
      rw [heeded]
      split
      · exact List.nil_prefix
      · exact List.prefix_cons_inj x |>.mpr (ih _)

/-- What every step keeps, a whole run keeps, of the signals that it heeds. -/
theorem foldl_keeps {limit : Nat} {P : List Signal → Watch → Prop}
    (hstep : ∀ past w x, w.result = none → P past w → P (past ++ [x]) (w.step limit x))
    {past : List Signal} {w : Watch} (h : P past w) (xs : List Signal) :
    P (past ++ heeded limit w xs) (xs.foldl (step limit) w) := by
  induction xs generalizing past w with
  | nil => simpa [heeded] using h
  | cons x xs ih =>
      cases hresult : w.result with
      | some e =>
          have hsome : w.result.isSome := by rw [hresult]; rfl
          rw [heeded_of_result hsome, foldl_of_result hsome, List.append_nil]
          exact h
      | none =>
          have hnext := ih (hstep past w x hresult h)
          simpa [heeded, hresult] using hnext

/-! ## The streams and the overflow -/

@[simp] theorem stream_setStream (w : Watch) (s t : Stream) (k : Kept) :
    (w.setStream s k).stream t = if t = s then k else w.stream t := by
  cases s <;> cases t <;> rfl

@[simp] theorem stream_setOverflow (w : Watch) (b : Bool) (s : Stream) :
    stream { w with overflow := b } s = w.stream s := by
  cases s <;> rfl

@[simp] theorem overflow_setStream (w : Watch) (s : Stream) (k : Kept) :
    (w.setStream s k).overflow = w.overflow := by
  cases s <;> rfl

@[simp] theorem stream_settle (w : Watch) (s : Stream) : w.settle.stream s = w.stream s := by
  unfold settle
  split <;> cases s <;> rfl

@[simp] theorem overflow_settle (w : Watch) : w.settle.overflow = w.overflow := by
  unfold settle
  split <;> rfl

theorem overflow_of_reading {w : Watch} (hread : w.reading = true) : w.overflow = false := by
  cases ho : w.overflow with
  | false => rfl
  | true => simp [reading, ho] at hread

theorem closed_of_not_reading {w : Watch} (hread : w.reading = false) (hover : w.overflow = false)
    (s : Stream) : (w.stream s).closed = true := by
  have hboth : w.out.closed = true ∧ w.err.closed = true := by
    simpa [reading, hover] using hread
  cases s with
  | out => exact hboth.1
  | err => exact hboth.2

/-- What the streams of a watch and its overflow flag say of the signals it has heeded. -/
structure Faithful (limit : Nat) (signals : List Signal) (w : Watch) : Prop where
  kept : ∀ s, (w.stream s).octets <+: sent s signals
  bounded : ∀ s, (w.stream s).octets.length ≤ limit
  exceeded : w.overflow = true → ∃ s, limit < (sent s signals).length
  /-- Without an overflow nothing is missing, and a stream is known to be closed when it is. -/
  whole : w.overflow = false → ∀ s, (w.stream s).octets = sent s signals ∧
    ((w.stream s).closed = true ↔ .closed s ∈ signals)

namespace Faithful

variable {limit : Nat} {signals : List Signal} {w w' : Watch} {x : Signal}

/-- After an overflow the streams stay as they are, and more can only have been sent. -/
theorem of_overflow (h : Faithful limit signals w) (hover : w.overflow = true)
    (hstream : ∀ s, w'.stream s = w.stream s) (hover' : w'.overflow = w.overflow) :
    Faithful limit (signals ++ [x]) w' := by
  obtain ⟨s, hs⟩ := h.exceeded hover
  refine ⟨?_, ?_, ?_, ?_⟩
  · intro t
    rw [hstream]
    exact (h.kept t).trans (sent_isPrefix t signals [x])
  · intro t
    rw [hstream]
    exact h.bounded t
  · intro _
    exact ⟨s, Nat.lt_of_lt_of_le hs (sent_isPrefix s signals [x]).length_le⟩
  · intro hfalse
    rw [hover', hover] at hfalse
    cases hfalse

/-- A signal that brings nothing to a stream leaves the streams as they are. -/
theorem of_silent (h : Faithful limit signals w)
    (hsent : ∀ s, sent s (signals ++ [x]) = sent s signals)
    (hclosed : ∀ s, .closed s ∈ signals ++ [x] ↔ .closed s ∈ signals)
    (hstream : ∀ s, w'.stream s = w.stream s) (hover : w'.overflow = w.overflow) :
    Faithful limit (signals ++ [x]) w' := by
  refine ⟨?_, ?_, ?_, ?_⟩
  · intro s
    rw [hstream, hsent]
    exact h.kept s
  · intro s
    rw [hstream]
    exact h.bounded s
  · intro ho
    obtain ⟨s, hs⟩ := h.exceeded (hover ▸ ho)
    exact ⟨s, by rw [hsent]; exact hs⟩
  · intro ho s
    rw [hstream, hsent, hclosed]
    exact h.whole (hover ▸ ho) s

/-- A stream that is open has not closed. -/
theorem closed_not_mem (h : Faithful limit signals w) {s : Stream} (hread : w.reading = true)
    (hopen : (w.stream s).closed = false) : .closed s ∉ signals := by
  intro hmem
  simp [(h.whole (overflow_of_reading hread) s).2.mpr hmem] at hopen

/-- What is kept after a read is told by what was sent, so that the capture itself need not be
looked at again. -/
theorem receive_read (h : Faithful limit signals w) {s : Stream} {octets : Bytes}
    (hread : w.reading = true) (hopen : (w.stream s).closed = false) :
    w.receive limit (.read s octets) =
      { w.setStream s ⟨(sent s (signals ++ [.read s octets])).take limit,
          decide (limit < (sent s (signals ++ [.read s octets])).length)⟩ with
        overflow := decide (limit < (sent s (signals ++ [.read s octets])).length) } := by
  have hsent : sent s (signals ++ [.read s octets]) = (w.stream s).octets ++ octets := by
    rw [sent_append, if_neg (h.closed_not_mem hread hopen),
      (h.whole (overflow_of_reading hread) s).1]
    simp [sent]
  rw [hsent]
  simp [Watch.receive, hread, hopen, capture_eq (h.bounded s)]

/-- A read of an open stream, as long as streams are read. -/
theorem read (h : Faithful limit signals w) {s : Stream} {octets : Bytes}
    (hread : w.reading = true) (hopen : (w.stream s).closed = false) :
    Faithful limit (signals ++ [.read s octets])
      (w.receive limit (.read s octets)) := by
  have hover : w.overflow = false := overflow_of_reading hread
  have hmem : .closed s ∉ signals := h.closed_not_mem hread hopen
  have hothers : ∀ t, t ≠ s → sent t (signals ++ [.read s octets]) = sent t signals := by
    intro t ht
    rw [sent_append]
    simp [sent, ht.symm]
  rw [h.receive_read hread hopen]
  refine ⟨?_, ?_, ?_, ?_⟩
  · intro t
    by_cases ht : t = s
    · subst ht
      simpa using List.take_prefix _ _
    · simpa [ht, hothers t ht] using h.kept t
  · intro t
    by_cases ht : t = s
    · subst ht
      rw [stream_setOverflow, stream_setStream, if_pos rfl]
      exact List.length_take_le _ _
    · simpa [ht] using h.bounded t
  · intro ho
    exact ⟨s, of_decide_eq_true ho⟩
  · intro ho t
    have hfit : (sent s (signals ++ [.read s octets])).length ≤ limit :=
      Nat.le_of_not_lt (of_decide_eq_false ho)
    by_cases ht : t = s
    · subst ht
      refine ⟨?_, ?_⟩
      · simpa using List.take_of_length_le hfit
      · simp [hmem, Nat.not_lt.mpr hfit]
    · have hwhole := h.whole hover t
      simpa [ht, hothers t ht] using hwhole

/-- The end of a stream, as long as streams are read. -/
theorem closed (h : Faithful limit signals w) {s : Stream} (hread : w.reading = true) :
    Faithful limit (signals ++ [.closed s]) (w.receive limit (.closed s)) := by
  have hover : w.overflow = false := overflow_of_reading hread
  have hsent : ∀ t, sent t (signals ++ [.closed s]) = sent t signals :=
    fun t => sent_append_of_not_read (by simp) t signals
  have hreceive : w.receive limit (.closed s) =
      w.setStream s { w.stream s with closed := true } := by
    simp [receive, hread]
  rw [hreceive]
  refine ⟨?_, ?_, ?_, ?_⟩
  · intro t
    rw [hsent, stream_setStream]
    by_cases ht : t = s
    · simpa [ht] using h.kept s
    · simpa [ht] using h.kept t
  · intro t
    rw [stream_setStream]
    by_cases ht : t = s
    · simpa [ht] using h.bounded s
    · simpa [ht] using h.bounded t
  · intro ho
    rw [overflow_setStream, hover] at ho
    cases ho
  · intro _ t
    rw [hsent, stream_setStream]
    by_cases ht : t = s
    · subst ht
      simpa using (h.whole hover t).1
    · simpa [ht] using h.whole hover t

theorem receive (h : Faithful limit signals w) (x : Signal) :
    Faithful limit (signals ++ [x]) (w.receive limit x) := by
  cases x with
  | read s octets =>
      by_cases hactive : w.reading = true ∧ (w.stream s).closed = false
      · exact h.read hactive.1 hactive.2
      · have hreceive : w.receive limit (.read s octets) = w := by
          cases hr : w.reading <;> cases hc : (w.stream s).closed <;>
            simp [Watch.receive, hr, hc]
          exact absurd ⟨hr, hc⟩ hactive
        rw [hreceive]
        cases ho : w.overflow with
        | true => exact h.of_overflow ho (fun _ => rfl) rfl
        | false =>
            -- the stream is closed, be it that it alone is or that both are
            have hclosed : (w.stream s).closed = true := by
              cases hr : w.reading with
              | false => exact closed_of_not_reading hr ho s
              | true =>
                  cases hc : (w.stream s).closed with
                  | true => rfl
                  | false => exact absurd ⟨hr, hc⟩ hactive
            have hmem : .closed s ∈ signals := (h.whole ho s).2.mp hclosed
            refine h.of_silent ?_ (by simp) (fun _ => rfl) rfl
            intro t
            by_cases ht : t = s
            · rw [ht]
              exact sent_append_of_closed hmem _
            · rw [sent_append]
              simp [sent, Ne.symm ht]
  | closed s =>
      cases hr : w.reading with
      | true => exact h.closed hr
      | false =>
          have hreceive : w.receive limit (.closed s) = w := by simp [Watch.receive, hr]
          rw [hreceive]
          cases ho : w.overflow with
          | true => exact h.of_overflow ho (fun _ => rfl) rfl
          | false =>
              have hmem : .closed s ∈ signals :=
                (h.whole ho s).2.mp (closed_of_not_reading hr ho s)
              refine h.of_silent (fun t => sent_append_of_not_read (by simp) t signals) ?_
                (fun _ => rfl) rfl
              intro t
              rw [List.mem_append, List.mem_singleton, Signal.closed.injEq]
              constructor
              · rintro (ht | rfl)
                · exact ht
                · exact hmem
              · exact Or.inl
  | readFailed s failure =>
      refine h.of_silent (fun t => sent_append_of_not_read (by simp) t signals) (by simp) ?_ ?_
      · intro t
        cases t <;> simp only [Watch.receive] <;> split <;> rfl
      · simp only [Watch.receive]
        split <;> rfl
  | ended code =>
      exact h.of_silent (fun t => sent_append_of_not_read (by simp) t signals) (by simp)
        (fun t => by cases t <;> rfl) rfl
  | waitFailed failure =>
      refine h.of_silent (fun t => sent_append_of_not_read (by simp) t signals) (by simp) ?_ ?_
      · intro t
        cases t <;> simp only [Watch.receive] <;> split <;> rfl
      · simp only [Watch.receive]
        split <;> rfl
  | timeout =>
      exact h.of_silent (fun t => sent_append_of_not_read (by simp) t signals) (by simp)
        (fun t => by cases t <;> rfl) rfl

theorem settle (h : Faithful limit signals w) : Faithful limit signals w.settle := by
  refine ⟨?_, ?_, ?_, ?_⟩
  · simpa using h.kept
  · simpa using h.bounded
  · simpa using h.exceeded
  · simpa using h.whole

theorem step (h : Faithful limit signals w) (hgoing : w.result = none) (x : Signal) :
    Faithful limit (signals ++ [x]) (w.step limit x) := by
  simp only [Watch.step, hgoing]
  split
  · exact h.receive x
  · exact (h.receive x).settle

theorem start (limit : Nat) : Faithful limit [] Watch.start := by
  refine ⟨?_, ?_, ?_, ?_⟩
  · intro s
    cases s <;> exact List.prefix_rfl
  · intro s
    cases s <;> exact Nat.zero_le _
  · intro ho
    cases ho
  · intro _ s
    cases s <;> simp [stream, Watch.start, sent]

theorem run (limit : Nat) (signals : List Signal) :
    Faithful limit (heeded limit Watch.start signals) (Watch.run limit signals) := by
  exact foldl_keeps (P := Faithful limit) (fun past w x hgoing h => h.step hgoing x) (start limit)
    signals

end Faithful

/-! ## The end of a watch -/

theorem process_receive (limit : Nat) (w : Watch) (x : Signal) :
    (w.receive limit x).process = x.exit?.or w.process := by
  cases x with
  | read s octets => cases s <;> simp only [receive] <;> split <;> rfl
  | closed s => cases s <;> simp only [receive] <;> split <;> rfl
  | readFailed s failure => simp only [receive]; split <;> rfl
  | ended code => rfl
  | waitFailed failure => simp only [receive]; split <;> rfl
  | timeout => rfl

/-- No single signal ends a watch well. -/
theorem result_receive_ne_ended {limit : Nat} {w : Watch} (hgoing : w.result = none) (x : Signal)
    (code : Option Int) : (w.receive limit x).result ≠ some (.ended code) := by
  cases x with
  | read s octets => cases s <;> simp only [receive] <;> split <;> simp [setStream, hgoing]
  | closed s => cases s <;> simp only [receive] <;> split <;> simp [setStream, hgoing]
  | readFailed s failure => simp only [receive]; split <;> simp [hgoing]
  | ended code => simp [receive, hgoing]
  | waitFailed failure => simp only [receive]; split <;> simp [hgoing]
  | timeout => simp [receive]

/-- A watch ends well when its streams are done and the process has ended. -/
theorem settle_cases (w : Watch) :
    w.settle = w ∨ ∃ code, w.reading = false ∧ w.process = some code ∧
      w.settle = { w with result := some (.ended code) } := by
  unfold settle
  split
  · rename_i code hread hprocess
    exact .inr ⟨code, hread, hprocess, rfl⟩
  · exact .inl rfl

/-- What the end of a watch says of the signals it has heeded. -/
structure Concluded (signals : List Signal) (w : Watch) : Prop where
  exit : w.process = exitOf signals
  timeout : .timeout ∈ signals → w.result = some .timedOut
  ended : ∀ code, w.result = some (.ended code) → w.reading = false ∧ w.process = some code

namespace Concluded

variable {limit : Nat} {signals : List Signal} {w : Watch}

theorem step (h : Concluded signals w) (hgoing : w.result = none) (x : Signal) :
    Concluded (signals ++ [x]) (w.step limit x) := by
  have hexit : (w.receive limit x).process = exitOf (signals ++ [x]) := by
    rw [process_receive, exitOf_append_one, h.exit]
  -- a watch that goes on has not seen the time limit yet
  have htimeout : .timeout ∈ signals ++ [x] → x = .timeout := by
    intro hmem
    rcases List.mem_append.mp hmem with hmem | hmem
    · rw [h.timeout hmem] at hgoing
      cases hgoing
    · exact (List.mem_singleton.mp hmem).symm
  simp only [Watch.step, hgoing]
  cases hresult : (w.receive limit x).result with
  | some e =>
      refine ⟨hexit, ?_, ?_⟩
      · intro hmem
        rw [htimeout hmem]
        rfl
      · intro code hcode
        exact absurd hcode (result_receive_ne_ended hgoing x code)
  | none =>
      have hmem : .timeout ∉ signals ++ [x] := by
        intro hmem
        rw [htimeout hmem] at hresult
        cases hresult
      rcases settle_cases (w.receive limit x) with hsettle | ⟨code, hread, hprocess, hsettle⟩
      · show Concluded _ (w.receive limit x).settle
        rw [hsettle]
        refine ⟨hexit, fun hm => absurd hm hmem, ?_⟩
        intro code hcode
        rw [hresult] at hcode
        cases hcode
      · show Concluded _ (w.receive limit x).settle
        rw [hsettle]
        refine ⟨hexit, fun hm => absurd hm hmem, ?_⟩
        intro code' hcode
        obtain rfl : code = code' := by simpa using hcode
        exact ⟨hread, hprocess⟩

theorem start : Concluded [] Watch.start := by
  refine ⟨rfl, ?_, ?_⟩
  · intro hmem
    cases hmem
  · intro code hcode
    cases hcode

theorem run (limit : Nat) (signals : List Signal) :
    Concluded (heeded limit Watch.start signals) (Watch.run limit signals) :=
  foldl_keeps (P := Concluded) (fun _ _ x hgoing h => h.step hgoing x) start signals

end Concluded

/-! ## The report -/

theorem Faithful.overflow_iff {limit : Nat} {signals : List Signal} {w : Watch}
    (h : Faithful limit signals w) :
    w.overflow = true ↔ ∃ s, limit < (sent s signals).length := by
  refine ⟨h.exceeded, ?_⟩
  rintro ⟨s, hs⟩
  cases ho : w.overflow with
  | true => rfl
  | false =>
      -- all that was sent is kept, and what is kept is bounded
      have hbound := h.bounded s
      rw [(h.whole ho s).1] at hbound
      omega

/-- A watch that ended by the end of the process, without an overflow, has all of both streams. -/
theorem Faithful.whole_of_ended {limit : Nat} {signals : List Signal} {w : Watch}
    (h : Faithful limit signals w) (hc : Concluded signals w) {code : Option Int}
    (hresult : w.result = some (.ended code)) (hover : w.overflow = false) (s : Stream) :
    .closed s ∈ signals ∧ (w.stream s).octets = sent s signals := by
  obtain ⟨hkept, hclosed⟩ := h.whole hover s
  exact ⟨hclosed.mp (closed_of_not_reading (hc.ended code hresult).1 hover s), hkept⟩

/-- Every report carries what was kept and whether it was cut, however the watch ended. -/
theorem report_captured {w : Watch} {timeout : Duration} {report : Report}
    (h : w.report timeout = some report) :
    report.stdout = Utf8.decodeLossy (w.stream .out).octets ∧
      report.stderr = Utf8.decodeLossy (w.stream .err).octets ∧ report.truncated = w.overflow := by
  obtain ⟨e, -, rfl⟩ := Option.map_eq_some_iff.mp h
  split <;> exact ⟨rfl, rfl, rfl⟩

/-- A report of an exit or a signal without a transport error is that of a process that ended. -/
theorem result_of_report {w : Watch} {timeout : Duration} {report : Report}
    (h : w.report timeout = some report)
    (hending : (∃ code, report.ending = some (.exit code)) ∨ report.ending = some .signalled)
    (herror : report.transportError = none) : ∃ code, w.result = some (.ended code) := by
  obtain ⟨e, he, rfl⟩ := Option.map_eq_some_iff.mp h
  cases e with
  | ended code => exact ⟨code, he⟩
  | failed failure => cases herror
  | timedOut => rcases hending with ⟨code, hcode⟩ | hcode <;> cases hcode

/-- Only a process that exited with 0 and whose output was not cut is judged a success. -/
theorem result_of_success {w : Watch} {timeout : Duration} {report : Report}
    (h : w.report timeout = some report) {text : String}
    (hsuccess : report.outcome = .success text) :
    w.result = some (.ended (some 0)) ∧ w.overflow = false ∧
      text = report.stdout ++ report.stderr := by
  obtain ⟨e, he, rfl⟩ := Option.map_eq_some_iff.mp h
  cases e with
  | ended code =>
      cases code with
      | none => simp [Report.outcome, Report.process, Report.blank] at hsuccess
      | some code =>
          simp only [Report.outcome, Report.exitOutcome, Report.process, Report.blank,
            Report.captured] at hsuccess
          cases ho : w.overflow with
          | true => simp [ho] at hsuccess
          | false =>
              by_cases hcode : code = 0
              · subst hcode
                simp only [ho, Bool.false_eq_true, if_false, if_true, Outcome.success.injEq]
                  at hsuccess
                exact ⟨he, rfl, hsuccess.symm⟩
              · simp [ho, hcode] at hsuccess
  | failed failure => simp [Report.outcome] at hsuccess
  | timedOut => simp [Report.outcome, Report.process, Report.blank] at hsuccess

end Watch

/-- For every interleaving of signals and every limit: what is kept of a stream is a prefix, of at
most `limit` octets, of what the process wrote to it.  A report is marked as truncated exactly when
a stream went over the limit among the signals that the watch heeded, also when the time limit came
after.  A report of an exit or a signal that tells of no transport error and is not marked has both
streams in full.  So a success means that the process exited with 0, that neither stream went over
the limit, that the time limit did not come, and that the text is that of all that was written. -/
theorem report_faithful (limit : Nat) (timeout : Duration) (signals : List Signal) :
    let w := Watch.run limit signals
    let seen := Watch.heeded limit Watch.start signals
    (∀ s, (w.stream s).octets <+: sent s signals ∧ (w.stream s).octets.length ≤ limit) ∧
    ∀ report, w.report timeout = some report →
      (report.stdout = Utf8.decodeLossy (w.stream .out).octets ∧
        report.stderr = Utf8.decodeLossy (w.stream .err).octets) ∧
      (report.truncated = true ↔ ∃ s, limit < (sent s seen).length) ∧
      ((∃ code, report.ending = some (.exit code)) ∨ report.ending = some .signalled →
        report.transportError = none → report.truncated = false →
        ∀ s, .closed s ∈ seen ∧ (w.stream s).octets = sent s signals) ∧
      ∀ text, report.outcome = .success text →
        exitOf seen = some (some 0) ∧ (∀ s, (sent s signals).length ≤ limit) ∧
        .timeout ∉ seen ∧
        text = Utf8.decodeLossy (sent .out signals) ++ Utf8.decodeLossy (sent .err signals) := by
  intro w seen
  have hf : Watch.Faithful limit seen w := .run limit signals
  have hc : Watch.Concluded seen w := .run limit signals
  obtain ⟨rest, hrest⟩ : seen <+: signals := Watch.heeded_isPrefix limit _ signals
  -- once both streams are closed, the signals that are not heeded add nothing to them
  have hwhole : ∀ code, w.result = some (.ended code) → w.overflow = false → ∀ s,
      .closed s ∈ seen ∧ (w.stream s).octets = sent s signals := by
    intro code hresult hover s
    obtain ⟨hclosed, hkept⟩ := hf.whole_of_ended hc hresult hover s
    rw [← hrest, sent_append_of_closed hclosed]
    exact ⟨hclosed, hkept⟩
  refine ⟨?_, ?_⟩
  · intro s
    refine ⟨?_, hf.bounded s⟩
    rw [← hrest]
    exact (hf.kept s).trans (sent_isPrefix s seen rest)
  · intro report hreport
    obtain ⟨hout, herr, htruncated⟩ := Watch.report_captured hreport
    refine ⟨⟨hout, herr⟩, ?_, ?_, ?_⟩
    · rw [htruncated]
      exact hf.overflow_iff
    · intro hending herror hcut
      obtain ⟨code, hresult⟩ := Watch.result_of_report hreport hending herror
      exact hwhole code hresult (htruncated ▸ hcut)
    · intro text hsuccess
      obtain ⟨hresult, hover, htext⟩ := Watch.result_of_success hreport hsuccess
      have hall := hwhole _ hresult hover
      refine ⟨?_, ?_, ?_, ?_⟩
      · rw [← hc.exit]
        exact (hc.ended _ hresult).2
      · intro s
        rw [← (hall s).2]
        exact hf.bounded s
      · intro hmem
        rw [hc.timeout hmem] at hresult
        cases hresult
      · rw [htext, hout, herr, (hall .out).2, (hall .err).2]

/-- The process exits between the ends of its two streams, and both texts are whole. -/
theorem report_faithful_whole :
    let signals := [.read .out [104, 105], .closed .out, .ended (some 0), .read .err [33],
      .closed .err]
    ∃ report text, (Watch.run 2 signals).report ⟨1, 0⟩ = some report ∧
      report.outcome = .success text ∧
      text = Utf8.decodeLossy (sent .out signals) ++ Utf8.decodeLossy (sent .err signals) := by
  intro signals
  have hreport : (Watch.run 2 signals).report ⟨1, 0⟩ =
      some (.process (.exit 0) [104, 105] [33] false) := rfl
  refine ⟨_, _, hreport, rfl, ?_⟩
  exact (((report_faithful 2 ⟨1, 0⟩ signals).2 _ hreport).2.2.2 _ rfl).2.2.2

end Relay

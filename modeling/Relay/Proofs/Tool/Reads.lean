import Mathlib.Data.List.Induction
import Relay.Proofs.Tool.Cut

/-!
# The capture of one stream

A watch captures two streams at once, and either may be left off at any moment: because the time is
up, because a read failed, or because the other one went over the limit.  `Capture` is what one of
them does by itself: it takes the reads of its stream until one goes beyond the limit or the stream
ends, and then returns whether it was the former.

Where a capture stands is told by the octets that came, however they were divided into reads
(`Capture.run_eq`).  A watch is two captures side by side for as long as it reads (`Mirrors`), and after
that its streams stay as they are.
-/

namespace Relay

/-- The capture of a stream: what it has kept, and what it returned once it has. -/
structure Capture where
  sink : Bytes
  /-- A read went over the limit, or the stream ended before. -/
  returned : Option Bool
  deriving DecidableEq, Repr

namespace Capture

/-- Nothing has come. -/
def start : Capture := ⟨[], none⟩

/-- The capture of stream `s` after a signal.  Once it has returned, nothing changes it. -/
def step (limit : Nat) (s : Stream) (c : Capture) : Signal → Capture
  | .read t octets =>
    if t = s ∧ c.returned = none then
      let (kept, exceeded) := capture limit c.sink octets
      ⟨kept, if exceeded then some true else none⟩
    else c
  | .closed t => if t = s ∧ c.returned = none then { c with returned := some false } else c
  | _ => c

/-- The capture of stream `s` after signals in their order. -/
def run (limit : Nat) (s : Stream) (signals : List Signal) : Capture :=
  signals.foldl (step limit s) start

/-- Where a capture stands that was sent these octets, up to the end of its stream or not. -/
def reached (limit : Nat) (octets : Bytes) (ended : Bool) : Capture :=
  ⟨octets.take limit,
    if limit < octets.length then some true else if ended then some false else none⟩

theorem run_append_one (limit : Nat) (s : Stream) (signals : List Signal) (x : Signal) :
    run limit s (signals ++ [x]) = (run limit s signals).step limit s x := by
  simp [run]

theorem step_of_returned {limit : Nat} {s : Stream} {c : Capture} {b : Bool}
    (h : c.returned = some b) (x : Signal) : c.step limit s x = c := by
  cases x with
  | read t octets => simp [step, h]
  | closed t => simp [step, h]
  | _ => rfl

/-- What is beyond the limit makes no difference any more. -/
theorem reached_append {limit : Nat} {octets : Bytes} (h : limit < octets.length) (more : Bytes)
    (ended ended' : Bool) : reached limit (octets ++ more) ended' = reached limit octets ended := by
  have hlong : limit < (octets ++ more).length := by rw [List.length_append]; omega
  simp only [reached, if_pos h, if_pos hlong, List.take_append_of_le_length (Nat.le_of_lt h)]

/-- A read of a stream that has neither gone over the limit nor ended. -/
theorem step_reached {limit : Nat} {octets : Bytes} (h : octets.length ≤ limit) (s : Stream)
    (more : Bytes) :
    (reached limit octets false).step limit s (.read s more) = reached limit (octets ++ more) false := by
  have hnot : ¬ limit < octets.length := Nat.not_lt.mpr h
  simp [reached, step, hnot, List.take_of_length_le h, capture_eq h]

/-- The octets that came, and whether their end did, tell where a capture stands. -/
theorem run_eq (limit : Nat) (s : Stream) (signals : List Signal) :
    run limit s signals = reached limit (sent s signals) (decide (.closed s ∈ signals)) := by
  induction signals using List.reverseRecOn with
  | nil => simp [run, start, reached, sent]
  | append_singleton signals x ih =>
      rw [run_append_one, ih]
      by_cases hover : limit < (sent s signals).length
      · obtain ⟨more, hmore⟩ := sent_isPrefix s signals [x]
        rw [step_of_returned (b := true) (by simp [reached, hover]), ← hmore, reached_append hover]
      · by_cases hended : .closed s ∈ signals
        · rw [step_of_returned (b := false) (by simp [reached, hover, hended]),
            sent_append_of_closed hended]
          simp [hended]
        · have hfits : (sent s signals).length ≤ limit := Nat.le_of_not_lt hover
          rw [sent_append, if_neg hended]
          simp only [hended, decide_false]
          cases x with
          | read t octets =>
              by_cases ht : t = s
              · subst ht
                rw [step_reached hfits]
                simp [sent, hended]
              · simp [step, sent, ht, hended]
          | closed t =>
              by_cases ht : t = s
              · simp [step, reached, sent, ht, hover]
              · simp [step, sent, ht, Ne.symm ht, hended]
          | _ => simp [step, sent, hended]

/-- A stream by itself, read to its end. -/
theorem run_reads (limit : Nat) (s : Stream) (reads : List Bytes) :
    run limit s (reads.map (.read s) ++ [.closed s]) = reached limit reads.flatten true := by
  have hsent : sent s (reads.map (.read s) ++ [.closed s]) = reads.flatten := by
    induction reads with
    | nil => simp [sent]
    | cons octets reads ih => simpa [sent] using ih
  rw [run_eq, hsent]
  simp

/-- What a watch knows of the stream of a capture. -/
def kept (c : Capture) : Kept := ⟨c.sink, c.returned.isSome⟩

end Capture

namespace Watch

/-! ## Two captures side by side -/

/-- The signals up to the one that ends the reading, or the watch. -/
def watched (limit : Nat) (w : Watch) : List Signal → List Signal
  | [] => []
  | x :: xs =>
    if w.result = none ∧ w.reading = true then x :: watched limit (w.step limit x) xs else []

/-- Only reads and the ends of streams change what is known of the streams. -/
theorem stream_receive_of_silent (limit : Nat) (w : Watch) {x : Signal}
    (hread : ∀ s octets, x ≠ .read s octets) (hclosed : ∀ s, x ≠ .closed s) :
    (∀ s, (w.receive limit x).stream s = w.stream s) ∧
      (w.receive limit x).overflow = w.overflow := by
  cases x with
  | read s octets => exact absurd rfl (hread s octets)
  | closed s => exact absurd rfl (hclosed s)
  | ended | timeout => exact ⟨fun s => by cases s <;> rfl, rfl⟩
  | readFailed | waitFailed =>
      -- a failure is heeded or not, and sets the result alone
      refine ⟨fun s => ?_, ?_⟩
      · cases s <;> simp only [receive] <;> split <;> rfl
      · simp only [receive]
        split <;> rfl

/-- What a watch knows of its streams is where their captures stand, and it knows of an overflow when
one of them returned because of it. -/
structure Mirrors (c : Stream → Capture) (w : Watch) : Prop where
  stream : ∀ s, w.stream s = (c s).kept
  overflow : w.overflow = true ↔ ∃ s, (c s).returned = some true

namespace Mirrors

variable {limit : Nat} {c : Stream → Capture} {w w' : Watch}

theorem none_over (h : Mirrors c w) (hread : w.reading = true) (s : Stream) :
    (c s).returned ≠ some true := by
  intro hs
  have hover := overflow_of_reading hread
  rw [h.overflow.mpr ⟨s, hs⟩] at hover
  cases hover

/-- A read of a stream whose capture goes on. -/
theorem read (h : Mirrors c w) (hread : w.reading = true) {t : Stream}
    (hopen : (c t).returned = none) (octets : Bytes) :
    Mirrors (fun s => (c s).step limit s (.read t octets)) (w.receive limit (.read t octets)) := by
  have hkept : w.stream t = ⟨(c t).sink, false⟩ := by rw [h.stream, Capture.kept, hopen]; rfl
  have hreceive : w.receive limit (.read t octets) =
      { w.setStream t ⟨(capture limit (c t).sink octets).1, (capture limit (c t).sink octets).2⟩ with
        overflow := (capture limit (c t).sink octets).2 } := by
    simp [Watch.receive, hread, hkept]
  have hself : (c t).step limit t (.read t octets) =
      ⟨(capture limit (c t).sink octets).1,
        if (capture limit (c t).sink octets).2 then some true else none⟩ := by
    simp [Capture.step, hopen]
  have hothers : ∀ s, s ≠ t → (c s).step limit s (.read t octets) = c s := by
    intro s hs
    simp [Capture.step, Ne.symm hs]
  rw [hreceive]
  generalize capture limit (c t).sink octets = captured at hself
  obtain ⟨sink, exceeded⟩ := captured
  refine ⟨?_, ?_⟩
  · intro s
    rw [stream_setOverflow, stream_setStream]
    by_cases hs : s = t
    · subst hs
      rw [if_pos rfl, hself]
      cases exceeded <;> rfl
    · rw [if_neg hs, hothers s hs]
      exact h.stream s
  · constructor
    · intro hover
      refine ⟨t, ?_⟩
      rw [hself]
      exact if_pos hover
    · rintro ⟨s, hs⟩
      by_cases hst : s = t
      · subst hst
        rw [hself] at hs
        cases exceeded with
        | true => rfl
        | false => cases hs
      · rw [hothers s hst] at hs
        exact absurd hs (h.none_over hread s)

/-- The end of a stream, which changes nothing for a capture that has returned. -/
theorem closed (h : Mirrors c w) (hread : w.reading = true) (t : Stream) :
    Mirrors (fun s => (c s).step limit s (.closed t)) (w.receive limit (.closed t)) := by
  have hreceive : w.receive limit (.closed t) = w.setStream t { w.stream t with closed := true } := by
    simp [Watch.receive, hread]
  have hothers : ∀ s, s ≠ t → (c s).step limit s (.closed t) = c s := by
    intro s hs
    simp [Capture.step, Ne.symm hs]
  rw [hreceive]
  refine ⟨?_, ?_⟩
  · intro s
    rw [stream_setStream]
    by_cases hs : s = t
    · subst hs
      cases hreturned : (c s).returned <;>
        simp [Capture.step, Capture.kept, hreturned, h.stream]
    · rw [if_neg hs, hothers s hs]
      exact h.stream s
  · rw [overflow_setStream, h.overflow]
    refine exists_congr fun s => ?_
    by_cases hs : s = t
    · subst hs
      cases hreturned : (c s).returned <;> simp [Capture.step, hreturned]
    · rw [hothers s hs]

/-- A signal that no capture heeds leaves the streams as they are. -/
theorem unheeded (h : Mirrors c w) {x : Signal} (hx : ∀ s, (c s).step limit s x = c s)
    (hsame : (∀ s, w'.stream s = w.stream s) ∧ w'.overflow = w.overflow) :
    Mirrors (fun s => (c s).step limit s x) w' := by
  simp only [hx]
  exact ⟨fun s => (hsame.1 s).trans (h.stream s), hsame.2 ▸ h.overflow⟩

theorem receive (h : Mirrors c w) (hread : w.reading = true) (x : Signal) :
    Mirrors (fun s => (c s).step limit s x) (w.receive limit x) := by
  cases x with
  | read t octets =>
      cases hreturned : (c t).returned with
      | none => exact h.read hread hreturned octets
      | some b =>
          have hclosed : (w.stream t).closed = true := by
            rw [h.stream, Capture.kept, hreturned]
            rfl
          have hreceive : w.receive limit (.read t octets) = w := by
            simp [Watch.receive, hclosed]
          rw [hreceive]
          refine h.unheeded ?_ ⟨fun _ => rfl, rfl⟩
          intro s
          by_cases hs : s = t
          · exact Capture.step_of_returned (hs ▸ hreturned) _
          · simp [Capture.step, Ne.symm hs]
  | closed t => exact h.closed hread t
  | _ =>
      refine h.unheeded (fun _ => rfl) (stream_receive_of_silent limit w ?_ ?_)
      · simp
      · simp

theorem step (h : Mirrors c w) (hgoing : w.result = none) (hread : w.reading = true) (x : Signal) :
    Mirrors (fun s => (c s).step limit s x) (w.step limit x) := by
  obtain ⟨hstream, hover⟩ := @stream_step limit w hgoing x
  have hreceive : Mirrors (fun s => (c s).step limit s x) (w.receive limit x) := h.receive hread x
  exact ⟨fun s => (hstream s).trans (hreceive.stream s), hover ▸ hreceive.overflow⟩

end Mirrors

theorem reading_congr {w w' : Watch} (hstream : ∀ s, w'.stream s = w.stream s)
    (hover : w'.overflow = w.overflow) : w'.reading = w.reading := by
  have hout : w'.out = w.out := hstream .out
  have herr : w'.err = w.err := hstream .err
  simp only [reading, hout, herr, hover]

/-- When nothing is read any more, a signal leaves the streams as they are, and nothing is read after
it either. -/
theorem step_of_unread {limit : Nat} {w : Watch} (h : ¬ (w.result = none ∧ w.reading = true))
    (x : Signal) :
    (∀ s, (w.step limit x).stream s = w.stream s) ∧ (w.step limit x).overflow = w.overflow ∧
      ¬ ((w.step limit x).result = none ∧ (w.step limit x).reading = true) := by
  cases hresult : w.result with
  | some e =>
      rw [step_of_result (by rw [hresult]; rfl)]
      exact ⟨fun _ => rfl, rfl, h⟩
  | none =>
      have hread : w.reading = false := by simpa [hresult] using h
      have hreceive : (∀ s, (w.receive limit x).stream s = w.stream s) ∧
          (w.receive limit x).overflow = w.overflow := by
        cases x with
        | read t octets => simp [receive, hread]
        | closed t => simp [receive, hread]
        | _ => exact stream_receive_of_silent limit w (by simp) (by simp)
      obtain ⟨hstream, hover⟩ := @stream_step limit w hresult x
      have hsame : ∀ s, (w.step limit x).stream s = w.stream s :=
        fun s => (hstream s).trans (hreceive.1 s)
      have hflag := hover.trans hreceive.2
      refine ⟨hsame, hflag, ?_⟩
      rw [reading_congr hsame hflag, hread]
      simp

theorem foldl_of_unread {limit : Nat} {w : Watch} (h : ¬ (w.result = none ∧ w.reading = true))
    (xs : List Signal) :
    (∀ s, (xs.foldl (step limit) w).stream s = w.stream s) ∧
      (xs.foldl (step limit) w).overflow = w.overflow := by
  induction xs generalizing w with
  | nil => exact ⟨fun _ => rfl, rfl⟩
  | cons x xs ih =>
      obtain ⟨hstream, hover, hunread⟩ := @step_of_unread limit w h x
      obtain ⟨hstream', hover'⟩ := ih hunread
      exact ⟨fun s => (hstream' s).trans (hstream s), hover'.trans hover⟩

/-- A watch is two captures side by side, which take the signals up to the end of the reading. -/
theorem mirrors_foldl {limit : Nat} {past : List Signal} {w : Watch}
    (h : Mirrors (fun s => Capture.run limit s past) w) (xs : List Signal) :
    Mirrors (fun s => Capture.run limit s (past ++ watched limit w xs)) (xs.foldl (step limit) w) := by
  induction xs generalizing past w with
  | nil => simpa [watched] using h
  | cons x xs ih =>
      rw [watched]
      split
      · next hactive =>
        have hstep : Mirrors (fun s => Capture.run limit s (past ++ [x])) (w.step limit x) := by
          simp only [Capture.run_append_one]
          exact h.step hactive.1 hactive.2 x
        simpa using ih hstep
      · next hunread =>
        obtain ⟨hstream, hover⟩ := @foldl_of_unread limit w hunread (x :: xs)
        rw [List.append_nil]
        exact ⟨fun s => (hstream s).trans (h.stream s), hover ▸ h.overflow⟩

theorem mirrors_run (limit : Nat) (signals : List Signal) :
    Mirrors (fun s => Capture.run limit s (watched limit start signals)) (run limit signals) := by
  have hstart : Mirrors (fun s => Capture.run limit s []) start :=
    ⟨fun s => by cases s <;> rfl, by simp [start, Capture.run, Capture.start]⟩
  exact mirrors_foldl hstart signals

end Watch

/-- For every limit and every stream, whatever the reads that it comes in: read to its end, a capture
keeps the first octets of all that came, as many as the limit lets it, and returns whether there were
more.  So only what the reads make up together counts, and not where one ends and the next begins.
Wherever a capture is left off, it has kept the first octets of what it was sent until then.  In a
watch, whatever happens to the other stream, the process and the time, each stream is captured so until
the reading ends, and an overflow is known exactly when one of the two captures returned that there was
more. -/
theorem capture_by_concatenation (limit : Nat) (s : Stream) :
    (∀ reads : List Bytes, Capture.run limit s (reads.map (.read s) ++ [.closed s]) =
      ⟨reads.flatten.take (min limit reads.flatten.length),
        some (decide (limit < reads.flatten.length))⟩) ∧
    (∀ reads reads' : List Bytes, reads.flatten = reads'.flatten →
      Capture.run limit s (reads.map (.read s) ++ [.closed s]) =
        Capture.run limit s (reads'.map (.read s) ++ [.closed s])) ∧
    (∀ signals, (Capture.run limit s signals).sink =
      (sent s signals).take (min limit (sent s signals).length)) ∧
    ∀ signals,
      let w := Watch.run limit signals
      let seen := Watch.watched limit .start signals
      (w.stream s).octets = (Capture.run limit s seen).sink ∧
      ((w.stream s).closed = true ↔ (Capture.run limit s seen).returned.isSome) ∧
      (w.overflow = true ↔ ∃ t, (Capture.run limit t seen).returned = some true) := by
  refine ⟨?_, ?_, ?_, ?_⟩
  · intro reads
    rw [Capture.run_reads, Capture.reached, ← List.take_eq_take_min]
    generalize reads.flatten = octets
    by_cases hover : limit < octets.length
    · simp [hover]
    · simp [hover]
  · intro reads reads' hsame
    rw [Capture.run_reads, Capture.run_reads, hsame]
  · intro signals
    rw [Capture.run_eq, Capture.reached, ← List.take_eq_take_min]
  · intro signals w seen
    have h := Watch.mirrors_run limit signals
    refine ⟨?_, ?_, h.overflow⟩
    · rw [h.stream]
      rfl
    · rw [h.stream]
      exact Iff.rfl

/-- The limit falls inside a read, and a watch that has taken one read of each stream is stopped by the
time limit before the next. -/
theorem capture_by_concatenation_straddled :
    let reads : List Bytes := [[1, 2, 3], [4, 5, 6]]
    let reads' : List Bytes := [[1], [2, 3, 4, 5, 6]]
    let signals : List Signal := [.read .out [1, 2, 3], .read .err [7], .timeout, .read .out [4, 5, 6]]
    Capture.run 4 .out (reads.map (.read .out) ++ [.closed .out]) = ⟨[1, 2, 3, 4], some true⟩ ∧
    Capture.run 4 .out (reads'.map (.read .out) ++ [.closed .out]) = ⟨[1, 2, 3, 4], some true⟩ ∧
    ((Watch.run 4 signals).stream .out).octets = [1, 2, 3] := by
  intro reads reads' signals
  obtain ⟨hreads, hsame, -, hwatch⟩ := capture_by_concatenation 4 .out
  exact ⟨hreads reads, (hsame reads' reads rfl).trans (hreads reads), (hwatch signals).1⟩

end Relay

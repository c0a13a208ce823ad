import Relay.Outcome.Classify
import Relay.Playground.Invoke
import Relay.Proofs.Tool.Exit
import Relay.View

/-!
# What was written is shown

Whatever a process wrote before it ended, was stopped or was lost stands in what the user sees, in
one piece and in its order: first in the playground, and inside the frame in the editor.  What the
judgement adds comes after it: `Followed` says how, each line on a new line unless nothing precedes
it.  The executors make no other reports than the ones this is proved of (`Built`).
-/

namespace Relay

/-! ## Lines after a text -/

/-- `whole` is `text` with lines after it, each on a new line unless nothing precedes it. -/
inductive Followed : (text : String) → (lines : List String) → (whole : String) → Prop where
  | done (text : String) : Followed text [] text
  /-- Nothing precedes the line. -/
  | alone {line whole : String} {lines : List String} :
      Followed line lines whole → Followed "" (line :: lines) whole
  /-- The text ends in a line break. -/
  | fresh {text line whole : String} {lines : List String} :
      Followed (text ++ "\n" ++ line) lines whole → Followed (text ++ "\n") (line :: lines) whole
  /-- The text ends in the middle of a line. -/
  | broken {text line whole : String} {lines : List String} :
      text ≠ "" → (∀ before, text ≠ before ++ "\n") →
      Followed (text ++ "\n" ++ line) lines whole → Followed text (line :: lines) whole

theorem Followed.exists_append {text whole : String} {lines : List String}
    (h : Followed text lines whole) : ∃ after, whole = text ++ after := by
  induction h with
  | done text => exact ⟨"", by simp⟩
  | alone _ ih =>
      obtain ⟨after, rfl⟩ := ih
      exact ⟨_, String.empty_append.symm⟩
  | fresh _ ih =>
      obtain ⟨after, rfl⟩ := ih
      exact ⟨_, String.append_assoc⟩
  | @broken text line _ _ _ _ _ ih =>
      obtain ⟨after, rfl⟩ := ih
      exact ⟨"\n" ++ line ++ after, by simp only [String.append_assoc]⟩

theorem Text.endsLine_iff (s : String) : endsLine s = true ↔ ∃ before, s = before ++ "\n" := by
  unfold endsLine
  rw [beq_iff_eq, List.getLast?_eq_some_iff]
  constructor
  · rintro ⟨cs, hcs⟩
    refine ⟨String.ofList cs, String.toList_inj.mp ?_⟩
    simp [hcs]
  · rintro ⟨before, rfl⟩
    exact ⟨before.toList, by simp⟩

/-- Adding a line puts it on a new line unless nothing precedes it. -/
theorem Followed.of_addLine {text line whole : String} {lines : List String}
    (h : Followed (addLine text line) lines whole) : Followed text (line :: lines) whole := by
  unfold addLine at h
  split at h
  · next hends =>
    rcases hends with rfl | hends
    · rw [String.empty_append] at h
      exact .alone h
    · obtain ⟨before, rfl⟩ := (Text.endsLine_iff text).mp hends
      exact .fresh h
  · next hends =>
    rw [not_or] at hends
    refine .broken hends.1 (fun before hbefore => hends.2 ?_) h
    exact (Text.endsLine_iff text).mpr ⟨before, hbefore⟩

/-! ## The texts of outcomes -/

/-- The text that an outcome carries. -/
def Outcome.text : Outcome → String
  | .success output => output
  | .toolFailure output _ => output
  | .unauthorized hint => hint
  | .transportFailure detail => detail
  | .toolNotFound detail => detail

theorem Outcome.exists_playground (o : Outcome) :
    ∃ after, o.playground.output = o.text ++ after := by
  cases o with
  | unauthorized hint => exact ⟨"\n" ++ keyAdvice, by rw [← String.append_assoc]; rfl⟩
  | _ => exact ⟨"", String.append_empty.symm⟩

theorem exists_framed (output line : String) : ∃ after, framed output line = output ++ after := by
  refine ⟨"\n" ++ rule ++ "\n" ++ line ++ "\n", ?_⟩
  simp only [framed, String.append_assoc]

theorem Outcome.exists_editor (operation : Operation) (file : SourceFile) (o : Outcome) :
    ∃ before after, (o.editor operation file).output = before ++ o.text ++ after := by
  cases o with
  | success output =>
      obtain ⟨after, hafter⟩ := exists_framed output (operation.doneLine file)
      exact ⟨"", after, by rw [String.empty_append]; exact hafter⟩
  | toolFailure output info =>
      obtain ⟨after, hafter⟩ := exists_framed output (operation.failedLine info)
      exact ⟨"", after, by rw [String.empty_append]; exact hafter⟩
  | _ => exact ⟨"❌ ", "\n", rfl⟩

/-! ## Reports -/

/-- A process ended in this way. -/
inductive Ending.OfProcess : Ending → Prop where
  | exit (code : Int) : OfProcess (.exit code)
  | signalled : OfProcess .signalled
  | timedOut (after : Duration) : OfProcess (.timedOut after)

/-- The ways in which an executor makes a report. -/
inductive Built : Report → Prop where
  | process {e : Ending} (h : e.OfProcess) (out err : Bytes) (truncated : Bool) :
      Built (.process e out err truncated)
  /-- A process was lost after it had written something. -/
  | lost {e : Ending} (h : e.OfProcess) (out err : Bytes) (truncated : Bool) (error : String) :
      Built { Report.process e out err truncated with transportError := some error }
  | http (status : Nat) (reply : Reply) : Built (.http status reply)
  | transport (detail : String) : Built (.transport detail)
  | unresolved (detail : String) : Built (.unresolved detail)

/-- The lines that the judgement adds to what a process wrote. -/
def notices (truncated : Bool) (e : Ending) : List String :=
  (if truncated then [truncationNotice] else []) ++
    match e with
    | .timedOut after => [timeoutNotice after]
    | _ => []

theorem followed_captured (r : Report) {lines : List String} {whole : String}
    (h : Followed r.captured lines whole) :
    Followed (r.stdout ++ r.stderr) ((if r.truncated then [truncationNotice] else []) ++ lines)
      whole := by
  unfold Report.captured at h
  cases hcut : r.truncated with
  | true =>
      rw [hcut, if_pos rfl] at h
      exact h.of_addLine
  | false =>
      rw [hcut, if_neg Bool.false_ne_true] at h
      exact h

theorem followed_of_transportError {r : Report} {error : String}
    (h : r.transportError = some error) :
    Followed (r.stdout ++ r.stderr) [error] r.outcome.text := by
  rw [Report.outcome, h]
  exact Followed.of_addLine (.done _)

theorem followed_of_process {r : Report} {e : Ending} (herror : r.transportError = none)
    (hending : r.ending = some e) (he : e.OfProcess) :
    Followed (r.stdout ++ r.stderr) (notices r.truncated e) r.outcome.text := by
  rw [Report.outcome, herror, hending]
  cases he with
  | exit code =>
      have htext : (r.exitOutcome code).text = r.captured := by
        unfold Report.exitOutcome
        split
        · rfl
        · split <;> rfl
      show Followed _ _ (r.exitOutcome code).text
      rw [htext]
      exact followed_captured r (.done _)
  | signalled => exact followed_captured r (.done _)
  | timedOut after =>
      have hlines : Followed r.captured [timeoutNotice after]
          (addLine r.captured (timeoutNotice after)) := .of_addLine (.done _)
      exact followed_captured r hlines

/-- What was written stands first in the text of the outcome. -/
theorem Built.exists_text {r : Report} (h : Built r) :
    ∃ after, r.outcome.text = r.stdout ++ r.stderr ++ after := by
  cases h with
  | process h out err truncated => exact (followed_of_process rfl rfl h).exists_append
  | lost h out err truncated error => exact (followed_of_transportError rfl).exists_append
  | http status reply => exact ⟨_, by rw [Report.http]; simp [Report.blank]; rfl⟩
  | transport detail => exact (followed_of_transportError rfl).exists_append
  | unresolved detail => exact ⟨detail, rfl⟩

/-! ## Executors -/

theorem built_invokeRemote (network : Network) (settings : RemoteSettings) (disk : Files.Disk)
    (request : Request) : Built (invokeRemote network settings disk request) := by
  unfold invokeRemote
  split
  · exact .unresolved _
  · split
    · exact .transport _
    · split
      · exact .http _ _
      · exact .transport _

theorem built_report {w : Watch} {timeout : Duration} {report : Report}
    (h : w.report timeout = some report) : Built report := by
  obtain ⟨e, -, rfl⟩ := Option.map_eq_some_iff.mp h
  cases e with
  | ended code =>
      cases code with
      | none => exact .process .signalled _ _ _
      | some code => exact .process (.exit code) _ _ _
  | failed failure => exact .lost .signalled _ _ _ _
  | timedOut => exact .process (.timedOut timeout) _ _ _

theorem built_judge (limits : Limits) (seen : Observation) : Built (limits.judge seen) := by
  obtain ⟨e, he⟩ := Watch.result_of_timeout limits.maxOutputBytes.toNat seen.signals
  unfold Limits.judge
  cases hreport : (Watch.run limits.maxOutputBytes.toNat (seen.signals ++ [.timeout])).report
      (.ofSeconds limits.timeoutSecs.toNat) with
  | none => simp [Watch.report, he] at hreport
  | some report => exact built_report hreport

theorem built_spawnReport (interpreter : String) (failure : Files.Failure) :
    Built (spawnReport interpreter failure) := by
  unfold spawnReport
  split
  · exact .unresolved _
  · exact .transport _

theorem built_invocation {σ : Type} (around : Surroundings σ) (s : σ) (limits : Limits)
    (settings : ToolSettings) (cwd : Path) (request : Request) :
    Built ((invocation limits settings cwd request).run around s).result := by
  unfold invocation
  split
  · exact .unresolved _
  · next file _ =>
    rw [Errand.run_search]
    cases (candidates settings file).find? (fun c => around.isFile s c.path) with
    | none => exact .unresolved _
    | some c =>
        simp only [LocalTool.started, Errand.run]
        split
        · exact built_spawnReport _ _
        · exact built_judge _ _

/-- For every report that an executor can make, every operation and every file: what was written,
first to the one stream and then to the other, is one piece of what the playground and the editor
show, and the playground shows it first.  After it the text of the outcome has the error alone when
there is one, and else, of a process, the notice of cut output if it was cut and then the notice of
the time limit if it was stopped there, each on a new line unless nothing precedes it.  The
executors make no other reports. -/
theorem captured_text_kept (operation : Operation) (file : SourceFile) :
    (∀ r, Built r →
      (∃ after, r.outcome.playground.output = r.stdout ++ r.stderr ++ after) ∧
      (∃ before after, (r.outcome.editor operation file).output =
        before ++ (r.stdout ++ r.stderr) ++ after) ∧
      (∀ error, r.transportError = some error →
        Followed (r.stdout ++ r.stderr) [error] r.outcome.text) ∧
      ∀ e, r.transportError = none → r.ending = some e → e.OfProcess →
        Followed (r.stdout ++ r.stderr) (notices r.truncated e) r.outcome.text) ∧
    (∀ network settings disk request, Built (invokeRemote network settings disk request)) ∧
    ∀ (σ : Type) (around : Surroundings σ) (s : σ) limits settings cwd request,
      Built ((invocation limits settings cwd request).run around s).result := by
  refine ⟨fun r h => ⟨?_, ?_, fun _ => followed_of_transportError, fun _ => followed_of_process⟩,
    built_invokeRemote, fun _ => built_invocation⟩
  · obtain ⟨after, htext⟩ := h.exists_text
    obtain ⟨rest, houtput⟩ := r.outcome.exists_playground
    refine ⟨after ++ rest, ?_⟩
    rw [houtput, htext]
    simp only [String.append_assoc]
  · obtain ⟨after, htext⟩ := h.exists_text
    obtain ⟨before, rest, houtput⟩ := r.outcome.exists_editor operation file
    refine ⟨before, after ++ rest, ?_⟩
    rw [houtput, htext]
    simp only [String.append_assoc]

/-- A process that wrote to both streams, was cut and was stopped at the time limit; and one that was
lost. -/
theorem captured_text_kept_stopped :
    let stopped := Report.process (.timedOut ⟨30, 0⟩) [97] [98] true
    let lost := { Report.process .signalled [97] [98] false with transportError := some "gone" }
    Followed (stopped.stdout ++ stopped.stderr) [truncationNotice, timeoutNotice ⟨30, 0⟩]
        stopped.outcome.text ∧
      Followed (lost.stdout ++ lost.stderr) ["gone"] lost.outcome.text := by
  intro stopped lost
  let file : SourceFile := ⟨.ofString "a.jatti", by decide +kernel⟩
  obtain ⟨-, -, -, hprocess⟩ := (captured_text_kept .run file).1 stopped
    (.process (.timedOut ⟨30, 0⟩) _ _ _)
  obtain ⟨-, -, herror, -⟩ := (captured_text_kept .run file).1 lost (.lost .signalled _ _ _ _)
  exact ⟨hprocess (.timedOut ⟨30, 0⟩) rfl rfl (.timedOut ⟨30, 0⟩), herror "gone" rfl⟩

end Relay

import Relay.Proofs.Outcome.Captured

/-!
# How reports are judged

A report has six parts, any of which can be missing, and is judged by them in an order of
precedence.  `Judged` is the same as a table: each row has all of its conditions, so that the rows
can be read one by one and in any order.  `judged_iff` says that the judgement follows the table,
from which every report falls under one row and no other.

The laws are read off the rows: what makes a success, what is a refused key, and which reason a
failure has.
-/

namespace Relay

/-- What a user is told about a failure that a server reports. -/
def Reply.complaint (reply : Reply) : String :=
  ((nonempty? reply.output).or (nonempty? reply.error)).getD "Unknown error"

/-- The server refuses the key by its status or in its reply. -/
def Reply.Refuses (reply : Reply) (status : Nat) : Prop :=
  status = 401 ∨ reply.error = some unauthorizedError

/-- The server says that the program ran. -/
def Reply.Confirms (reply : Reply) (status : Nat) : Prop :=
  200 ≤ status ∧ status < 300 ∧ reply.success = true

/-- The table of judgements. -/
inductive Judged (r : Report) : Outcome → Prop where
  | lost {error : String} : r.transportError = some error →
      Judged r (.transportFailure (addLine (r.stdout ++ r.stderr) error))
  | silent : r.transportError = none → r.ending = none →
      Judged r (.transportFailure "Executor returned no status")
  | unresolved {detail : String} : r.transportError = none →
      r.ending = some (.unresolved detail) → Judged r (.toolNotFound detail)
  | bodiless {status : Nat} : r.transportError = none → r.ending = some (.http status) →
      r.reply = none →
      Judged r (.transportFailure ("HTTP " ++ Numeral.decimal status ++ " without a response body"))
  | refused {status : Nat} {reply : Reply} : r.transportError = none →
      r.ending = some (.http status) → r.reply = some reply → reply.Refuses status →
      Judged r (.unauthorized unauthorizedHint)
  | confirmed {status : Nat} {reply : Reply} : r.transportError = none →
      r.ending = some (.http status) → r.reply = some reply → ¬ reply.Refuses status →
      reply.Confirms status → Judged r (.success (reply.output.getD ""))
  | denied {status : Nat} {reply : Reply} : r.transportError = none →
      r.ending = some (.http status) → r.reply = some reply → ¬ reply.Refuses status →
      ¬ reply.Confirms status → Judged r (.toolFailure reply.complaint (.remote status))
  | ended : r.transportError = none → r.ending = some (.exit 0) → r.truncated = false →
      Judged r (.success r.captured)
  | failed {code : Int} : r.transportError = none → r.ending = some (.exit code) → code ≠ 0 →
      r.truncated = false → Judged r (.toolFailure r.captured (.code code))
  | signalled : r.transportError = none → r.ending = some .signalled → r.truncated = false →
      Judged r (.toolFailure r.captured .terminated)
  /-- The process was stopped because it wrote too much, however it ended then. -/
  | cut {e : Ending} : r.transportError = none → r.ending = some e → e.OfProcess →
      (∀ after, e ≠ .timedOut after) → r.truncated = true →
      Judged r (.toolFailure r.captured .outputLimit)
  | timedOut {after : Duration} : r.transportError = none → r.ending = some (.timedOut after) →
      Judged r (.toolFailure (addLine r.captured (timeoutNotice after)) (.timedOut after))

/-! ## The judgement follows the table -/

section Follows

variable {r : Report}

theorem judged_reply {status : Nat} {reply : Reply} (hpath : r.transportError = none)
    (hending : r.ending = some (.http status)) (hreply : r.reply = some reply) :
    Judged r (reply.outcome status) := by
  unfold Reply.outcome
  split
  · next hrefuses => exact .refused hpath hending hreply hrefuses
  · next hrefuses =>
    split
    · next hconfirms => exact .confirmed hpath hending hreply hrefuses hconfirms
    · next hconfirms => exact .denied hpath hending hreply hrefuses hconfirms

theorem judged_exit {code : Int} (hpath : r.transportError = none)
    (hending : r.ending = some (.exit code)) : Judged r (r.exitOutcome code) := by
  unfold Report.exitOutcome
  split
  · next hcut => exact .cut hpath hending (.exit code) nofun hcut
  · next hwhole =>
    rw [Bool.not_eq_true] at hwhole
    split
    · next hzero =>
      subst hzero
      exact .ended hpath hending hwhole
    · next hcode => exact .failed hpath hending hcode hwhole

theorem judged_signalled (hpath : r.transportError = none) (hending : r.ending = some .signalled) :
    Judged r (.toolFailure r.captured (if r.truncated then .outputLimit else .terminated)) := by
  split
  · next hcut => exact .cut hpath hending .signalled nofun hcut
  · next hwhole => exact .signalled hpath hending (Bool.not_eq_true _ ▸ hwhole)

theorem judged_outcome (r : Report) : Judged r r.outcome := by
  unfold Report.outcome
  split
  · next error herror => exact .lost herror
  · next hpath =>
    split
    · next hending => exact .silent hpath hending
    · next detail hending => exact .unresolved hpath hending
    · next status hending =>
      split
      · next reply hreply => exact judged_reply hpath hending hreply
      · next hreply => exact .bodiless hpath hending hreply
    · next code hending => exact judged_exit hpath hending
    · next hending => exact judged_signalled hpath hending
    · next after hending => exact .timedOut hpath hending

/-- No report falls under two rows. -/
theorem Judged.outcome_eq {o : Outcome} (h : Judged r o) : r.outcome = o := by
  cases h with
  | lost herror => simp only [Report.outcome, herror]
  | silent hpath hending => simp only [Report.outcome, hpath, hending]
  | unresolved hpath hending => simp only [Report.outcome, hpath, hending]
  | bodiless hpath hending hreply => simp only [Report.outcome, hpath, hending, hreply]
  | refused hpath hending hreply hrefuses =>
      simp only [Report.outcome, hpath, hending, hreply, Reply.outcome]
      exact if_pos hrefuses
  | confirmed hpath hending hreply hrefuses hconfirms =>
      simp only [Report.outcome, hpath, hending, hreply, Reply.outcome]
      exact (if_neg hrefuses).trans (if_pos hconfirms)
  | denied hpath hending hreply hrefuses hconfirms =>
      simp only [Report.outcome, hpath, hending, hreply, Reply.outcome]
      exact (if_neg hrefuses).trans (if_neg hconfirms)
  | ended hpath hending hwhole => simp [Report.outcome, hpath, hending, Report.exitOutcome, hwhole]
  | failed hpath hending hcode hwhole =>
      simp [Report.outcome, hpath, hending, Report.exitOutcome, hwhole, hcode]
  | signalled hpath hending hwhole => simp [Report.outcome, hpath, hending, hwhole]
  | cut hpath hending hprocess htime hcut =>
      cases hprocess with
      | exit code => simp [Report.outcome, hpath, hending, Report.exitOutcome, hcut]
      | signalled => simp [Report.outcome, hpath, hending, hcut]
      | timedOut after => exact absurd rfl (htime after)
  | timedOut hpath hending => simp only [Report.outcome, hpath, hending]

theorem judged_iff {o : Outcome} : Judged r o ↔ r.outcome = o :=
  ⟨Judged.outcome_eq, fun h => h ▸ judged_outcome r⟩

end Follows

/-! ## What the rows say -/

theorem ne_empty_of_nonempty? {text : Option String} {s : String} (h : nonempty? text = some s) :
    s ≠ "" := by
  rintro rfl
  cases text with
  | none => cases h
  | some t =>
      unfold nonempty? at h
      split at h
      · cases h
      · next hne => exact hne h

theorem Reply.complaint_ne_empty (reply : Reply) : reply.complaint ≠ "" := by
  unfold complaint
  cases houtput : nonempty? reply.output with
  | some s => exact ne_empty_of_nonempty? houtput
  | none =>
      cases herror : nonempty? reply.error with
      | some s => exact ne_empty_of_nonempty? herror
      | none => decide

variable {r : Report}

theorem success_iff : (∃ output, r.outcome = .success output) ↔ r.transportError = none ∧
    ((r.ending = some (.exit 0) ∧ r.truncated = false) ∨
      ∃ status reply, r.ending = some (.http status) ∧ 200 ≤ status ∧ status < 300 ∧
        r.reply = some reply ∧ reply.success = true ∧ reply.error ≠ some unauthorizedError) := by
  constructor
  · rintro ⟨output, houtcome⟩
    cases judged_iff.mpr houtcome with
    | ended hpath hending hwhole => exact ⟨hpath, .inl ⟨hending, hwhole⟩⟩
    | confirmed hpath hending hreply hrefuses hconfirms =>
        exact ⟨hpath, .inr ⟨_, _, hending, hconfirms.1, hconfirms.2.1, hreply, hconfirms.2.2,
          fun herror => hrefuses (.inr herror)⟩⟩
  · rintro ⟨hpath, ⟨hending, hwhole⟩ |
      ⟨status, reply, hending, hlow, hhigh, hreply, hsuccess, herror⟩⟩
    · exact ⟨_, judged_iff.mp (.ended hpath hending hwhole)⟩
    · have hrefuses : ¬ reply.Refuses status := by
        rintro (rfl | hrefused)
        · omega
        · exact herror hrefused
      exact ⟨_, judged_iff.mp (.confirmed hpath hending hreply hrefuses ⟨hlow, hhigh, hsuccess⟩)⟩

theorem unauthorized_iff : (∃ hint, r.outcome = .unauthorized hint) ↔ r.transportError = none ∧
    ∃ status reply, r.ending = some (.http status) ∧ r.reply = some reply ∧
      reply.Refuses status := by
  constructor
  · rintro ⟨hint, houtcome⟩
    cases judged_iff.mpr houtcome with
    | refused hpath hending hreply hrefuses => exact ⟨hpath, _, _, hending, hreply, hrefuses⟩
  · rintro ⟨hpath, status, reply, hending, hreply, hrefuses⟩
    exact ⟨_, judged_iff.mp (.refused hpath hending hreply hrefuses)⟩

/-- The reason for which a process that ended in this way, with its output cut or not, failed. -/
inductive Ending.FailsBy : Ending → (truncated : Bool) → ExitInfo → Prop where
  | timedOut (after : Duration) (truncated : Bool) :
      FailsBy (.timedOut after) truncated (.timedOut after)
  | outputLimit {e : Ending} : (∀ after, e ≠ .timedOut after) → FailsBy e true .outputLimit
  | code {code : Int} : code ≠ 0 → FailsBy (.exit code) false (.code code)
  | terminated : FailsBy .signalled false .terminated

/-- A process that did not end well failed for one of these reasons, and only such a one does. -/
theorem process_iff {e : Ending} (hending : r.ending = some e) (hprocess : e.OfProcess)
    (info : ExitInfo) :
    (∃ output, r.outcome = .toolFailure output info) ↔
      r.transportError = none ∧ e.FailsBy r.truncated info := by
  constructor
  · rintro ⟨output, houtcome⟩
    cases judged_iff.mpr houtcome with
    | denied _ hhttp =>
        obtain rfl := Option.some.inj (hending.symm.trans hhttp)
        cases hprocess
    | failed hpath hexit hcode hwhole =>
        obtain rfl := Option.some.inj (hending.symm.trans hexit)
        rw [hwhole]
        exact ⟨hpath, .code hcode⟩
    | signalled hpath hsignalled hwhole =>
        obtain rfl := Option.some.inj (hending.symm.trans hsignalled)
        rw [hwhole]
        exact ⟨hpath, .terminated⟩
    | cut hpath he _ htime hcut =>
        obtain rfl := Option.some.inj (hending.symm.trans he)
        rw [hcut]
        exact ⟨hpath, .outputLimit htime⟩
    | timedOut hpath htimed =>
        obtain rfl := Option.some.inj (hending.symm.trans htimed)
        exact ⟨hpath, .timedOut _ _⟩
  · rintro ⟨hpath, hreason⟩
    generalize hcut : r.truncated = truncated at hreason
    cases hreason with
    | timedOut after => exact ⟨_, judged_iff.mp (.timedOut hpath hending)⟩
    | outputLimit htime => exact ⟨_, judged_iff.mp (.cut hpath hending hprocess htime hcut)⟩
    | code hcode => exact ⟨_, judged_iff.mp (.failed hpath hending hcode hcut)⟩
    | terminated => exact ⟨_, judged_iff.mp (.signalled hpath hending hcut)⟩

/-- What a server reports as a failure comes with a text and with its status. -/
theorem toolFailure_of_http {status : Nat} {output : String} {info : ExitInfo}
    (hending : r.ending = some (.http status)) (houtcome : r.outcome = .toolFailure output info) :
    output ≠ "" ∧ info = .remote status := by
  -- the other rows of a failure are about processes
  have hprocess : ∀ e, r.ending = some e → ¬ e.OfProcess := by
    intro e he hprocess
    obtain rfl := Option.some.inj (hending.symm.trans he)
    cases hprocess
  cases judged_iff.mpr houtcome with
  | @denied status' reply _ hhttp =>
      obtain rfl := Ending.http.inj (Option.some.inj (hending.symm.trans hhttp))
      exact ⟨reply.complaint_ne_empty, rfl⟩
  | failed _ hexit => exact absurd (.exit _) (hprocess _ hexit)
  | signalled _ hsignalled => exact absurd .signalled (hprocess _ hsignalled)
  | cut _ he hof => exact absurd hof (hprocess _ he)
  | timedOut _ htimed => exact absurd (.timedOut _) (hprocess _ htimed)

/-- A reply with its two other flags set at will. -/
def Reply.flagged (timedOut truncated : Bool) (reply : Reply) : Reply :=
  { reply with timedOut, truncated }

theorem outcome_flagged (r : Report) (timedOut truncated : Bool) :
    { r with reply := r.reply.map (Reply.flagged timedOut truncated) }.outcome = r.outcome := by
  cases h : r.reply with
  | none => simp [Report.outcome, h, Report.exitOutcome, Report.captured]
  | some reply =>
      simp [Report.outcome, h, Report.exitOutcome, Report.captured, Reply.outcome, Reply.flagged]

/-! ## Views -/

theorem isSuccess_iff (o : Outcome) : o.isSuccess = true ↔ ∃ output, o = .success output := by
  cases o <;> simp [Outcome.isSuccess]

theorem playground_ok_iff (o : Outcome) :
    o.playground.status.kind = .ok ↔ o.isSuccess = true := by
  cases o <;> simp [Outcome.playground, Outcome.isSuccess, Status.ok, Status.error]

theorem editor_ok_iff (operation : Operation) (file : SourceFile) (o : Outcome) :
    (o.editor operation file).status.kind = .ok ↔ o.isSuccess = true := by
  cases o <;> simp [Outcome.editor, Outcome.isSuccess, Status.ok, Status.error]

/-- Every report is judged by its parts and their precedence: what makes a success and what is a
refused key; that a failure told by a server has a text and the server's status; that a process
fails for exactly one reason, unless it ended well; that the flags in a server's reply about time
and size do not count; and that an outcome is a success exactly when the playground shows it as one
and when the editor does. -/
theorem report_judged (r : Report) :
    ((∃ output, r.outcome = .success output) ↔ r.transportError = none ∧
      ((r.ending = some (.exit 0) ∧ r.truncated = false) ∨
        ∃ status reply, r.ending = some (.http status) ∧ 200 ≤ status ∧ status < 300 ∧
          r.reply = some reply ∧ reply.success = true ∧ reply.error ≠ some "Unauthorized")) ∧
    ((∃ hint, r.outcome = .unauthorized hint) ↔ r.transportError = none ∧
      ∃ status reply, r.ending = some (.http status) ∧ r.reply = some reply ∧
        (status = 401 ∨ reply.error = some "Unauthorized")) ∧
    (∀ status output info, r.ending = some (.http status) →
      r.outcome = .toolFailure output info → output ≠ "" ∧ info = .remote status) ∧
    (∀ e, r.ending = some e → e.OfProcess →
      ∀ info, (∃ output, r.outcome = .toolFailure output info) ↔
        r.transportError = none ∧ e.FailsBy r.truncated info) ∧
    (∀ timedOut truncated,
      { r with reply := r.reply.map (Reply.flagged timedOut truncated) }.outcome = r.outcome) ∧
    ∀ operation file,
      (r.outcome.isSuccess = true ↔ ∃ output, r.outcome = .success output) ∧
      (r.outcome.playground.status.kind = .ok ↔ r.outcome.isSuccess = true) ∧
      ((r.outcome.editor operation file).status.kind = .ok ↔ r.outcome.isSuccess = true) := by
  refine ⟨success_iff, unauthorized_iff, ?_, ?_, outcome_flagged r, ?_⟩
  · intro status output info hending houtcome
    exact toolFailure_of_http hending houtcome
  · intro e hending hprocess info
    exact process_iff hending hprocess info
  · intro operation file
    exact ⟨isSuccess_iff _, playground_ok_iff _, editor_ok_iff operation file _⟩

/-- A process that was stopped at the time limit with its output cut, a reply that says success
with the wrong status, and one that says success and refuses the key. -/
theorem report_judged_mixed :
    let stopped := Report.process (.timedOut ⟨2, 0⟩) [97] [] true
    let late := Report.http 429 ⟨true, some "", some "busy", false, false⟩
    let refused := Report.http 200 ⟨true, none, some "Unauthorized", false, false⟩
    (∃ output, stopped.outcome = .toolFailure output (.timedOut ⟨2, 0⟩)) ∧
      (late.outcome = .toolFailure "busy" (.remote 429) ∧ "busy" ≠ "") ∧
      ∃ hint, refused.outcome = .unauthorized hint := by
  intro stopped late refused
  have hlate : late.outcome = .toolFailure "busy" (.remote 429) := by decide +kernel
  obtain ⟨-, -, -, hstopped, -⟩ := report_judged stopped
  obtain ⟨-, -, hremote, -⟩ := report_judged late
  obtain ⟨-, hrefused, -⟩ := report_judged refused
  refine ⟨?_, ⟨hlate, (hremote 429 _ _ rfl hlate).1⟩, ?_⟩
  · exact (hstopped (.timedOut ⟨2, 0⟩) rfl (.timedOut _) _).mpr ⟨rfl, .timedOut _ _⟩
  · exact hrefused.mpr ⟨rfl, 200, _, rfl, rfl, .inr rfl⟩

end Relay

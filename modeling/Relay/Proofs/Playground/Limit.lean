import Relay.Playground.Invoke

/-!
# Answers within a limit

The body of an answer comes in chunks, and each chunk is weighed against the limit before it is
kept.  Only the sum counts: as long as the chunks come to no more than the limit all of them are
kept (`foldl_chunks`), and the first one that goes beyond it ends the reading for good, whatever
comes after.  So a body is too large, cut short, or read as the one text that its chunks make up,
and `send_within_limit` says which, from the chunks' sum and the way the body ends alone.
-/

namespace Relay

namespace BodyState

/-- What is kept of a body that was not given up. -/
def kept? : BodyState → Option Bytes
  | reading kept => some kept
  | complete body => some body
  | tooLarge | broken => none

/-- What is kept takes no more than the limit. -/
def Bounded (limit : Nat) (s : BodyState) : Prop := ∀ kept, s.kept? = some kept → kept.length ≤ limit

theorem Bounded.step {limit : Nat} {s : BodyState} (h : Bounded limit s) (a : Arrival) :
    Bounded limit (s.step limit a) := by
  cases s with
  | reading kept =>
      cases a with
      | chunk octets =>
          rw [BodyState.step]
          split
          · intro body hbody
            cases hbody
          · next hfits =>
            rintro body hbody
            obtain rfl : kept ++ octets = body := Option.some.inj hbody
            rw [List.length_append]
            omega
      | ended => exact h
      | broken => exact nofun
  | complete body => exact h
  | tooLarge => exact nofun
  | broken => exact nofun

/-- Whatever arrives, no more than the limit is ever kept. -/
theorem bounded_run (limit : Nat) (arrivals : List Arrival) : Bounded limit (run limit arrivals) := by
  have hfold : ∀ s, Bounded limit s → Bounded limit (arrivals.foldl (BodyState.step limit) s) := by
    induction arrivals with
    | nil => exact fun s hs => hs
    | cons a arrivals ih => exact fun s hs => ih _ (hs.step a)
  refine hfold start ?_
  rintro kept hkept
  obtain rfl : [] = kept := Option.some.inj hkept
  exact Nat.zero_le _

/-- A body that was given up as too large stays so. -/
theorem foldl_tooLarge (limit : Nat) (arrivals : List Arrival) :
    arrivals.foldl (step limit) tooLarge = tooLarge := by
  induction arrivals with
  | nil => rfl
  | cons a arrivals ih => exact ih

/-- Chunks are kept all together, or the body is too large: only their sum counts. -/
theorem foldl_chunks {limit : Nat} {kept : Bytes} (h : kept.length ≤ limit) (chunks : List Bytes) :
    (chunks.map Arrival.chunk).foldl (step limit) (reading kept) =
      if limit < (kept ++ chunks.flatten).length then tooLarge
      else reading (kept ++ chunks.flatten) := by
  induction chunks generalizing kept with
  | nil => simp [Nat.not_lt.mpr h]
  | cons octets chunks ih =>
      rw [List.map_cons, List.foldl_cons, List.flatten_cons, ← List.append_assoc, step]
      by_cases hover : limit < kept.length + octets.length
      · -- the sum cannot fall below the limit again
        have htotal : limit < (kept ++ octets ++ chunks.flatten).length := by
          rw [List.length_append, List.length_append]
          omega
        rw [if_pos hover, if_pos htotal, foldl_tooLarge]
      · rw [if_neg hover]
        exact ih (by rw [List.length_append]; omega)

end BodyState

/-- An answer whose body comes in these chunks and then ends, or breaks off. -/
def Response.chunked (status : Nat) (chunks : List Bytes) (breaksOff : Bool) : Response :=
  ⟨status, chunks.map .chunk ++ [if breaksOff then .broken else .ended]⟩

theorem Response.body_chunked (limit status : Nat) (chunks : List Bytes) (breaksOff : Bool) :
    (chunked status chunks breaksOff).body limit =
      if limit < chunks.flatten.length then .error (.tooLarge limit)
      else if breaksOff then .error (.network .cutShort)
      else .ok chunks.flatten := by
  have hchunks := @BodyState.foldl_chunks limit [] (Nat.zero_le limit) chunks
  rw [List.nil_append] at hchunks
  have hrun : BodyState.run limit (chunked status chunks breaksOff).arrivals =
      (if limit < chunks.flatten.length then BodyState.tooLarge
        else .reading chunks.flatten).step limit (if breaksOff then .broken else .ended) := by
    rw [← hchunks, BodyState.run, chunked, List.foldl_append]
    rfl
  rw [Response.body, hrun]
  by_cases hover : limit < chunks.flatten.length
  · simp only [if_pos hover, BodyState.step]
  · cases breaksOff with
    | true => simp only [if_neg hover, if_true, BodyState.step]
    | false => simp only [if_neg hover, Bool.false_eq_true, if_false, BodyState.step]

/-- A body that was read can only fail to be a reply. -/
theorem exists_fault_of_decoded {status : Nat} {body : Bytes} {e : SendError}
    (h : ((Json.decodeReply body).mapError .notReply).map (status, ·) = .error e) :
    ∃ fault, e = .notReply fault := by
  cases hreply : Json.decodeReply body with
  | ok reply =>
      rw [hreply] at h
      cases h
  | error fault =>
      rw [hreply] at h
      cases h
      exact ⟨fault, rfl⟩

/-- What comes of a program that was answered is told by the sum of the chunks, the way the body
ends and, if it is whole and within the limit, its text. -/
theorem send_chunked {network : Network} {address code : String} {key : Option String} {post : Post}
    (hpost : Post.build address code key = .ok post) {status : Nat} {chunks : List Bytes}
    {breaksOff : Bool} (hanswer : network post = some (.chunked status chunks breaksOff))
    (limit : Nat) :
    send network limit address code key =
      if limit < chunks.flatten.length then .error (.tooLarge limit)
      else if breaksOff then .error (.network .cutShort)
      else ((Json.decodeReply chunks.flatten).mapError .notReply).map (status, ·) := by
  have hsend : send network limit address code key =
      ((Response.chunked status chunks breaksOff).body limit).bind fun body =>
        ((Json.decodeReply body).mapError .notReply).map (status, ·) := by
    have hbuilt : (Post.build address code key).mapError SendError.network = .ok post := by
      rw [hpost]
      rfl
    simp only [send, hbuilt, hanswer, bind, Except.bind]
    rfl
  rw [hsend, Response.body_chunked]
  split
  · rfl
  · split
    · rfl
    · rfl

/-- For every answer whose body comes in chunks and then ends or breaks off, and every limit: no more
than the limit is ever kept of a body, whatever arrives.  Sending fails because the body is too large
exactly when the chunks come to more than the limit, with a network error exactly when the body
breaks off and they do not, and in all other cases the reply is read from the text that the chunks
make up, also when that takes exactly the limit.  So the answer's division into chunks makes no
difference. -/
theorem send_within_limit (network : Network) (limit : Nat) (address code : String)
    (key : Option String) (post : Post) (hpost : Post.build address code key = .ok post)
    (status : Nat) (chunks : List Bytes) (breaksOff : Bool)
    (hanswer : network post = some (.chunked status chunks breaksOff)) :
    (∀ arrivals kept, (BodyState.run limit arrivals).kept? = some kept → kept.length ≤ limit) ∧
    (∀ n, send network limit address code key = .error (.tooLarge n) ↔
      n = limit ∧ limit < chunks.flatten.length) ∧
    (∀ e, send network limit address code key = .error (.network e) ↔
      e = .cutShort ∧ breaksOff = true ∧ chunks.flatten.length ≤ limit) ∧
    (breaksOff = false → chunks.flatten.length ≤ limit →
      send network limit address code key =
        ((Json.decodeReply chunks.flatten).mapError .notReply).map (status, ·)) ∧
    ∀ (network' : Network) (chunks' : List Bytes),
      network' post = some (.chunked status chunks' breaksOff) →
      chunks'.flatten = chunks.flatten →
      send network' limit address code key = send network limit address code key := by
  have hsend := send_chunked hpost hanswer limit
  refine ⟨fun arrivals => BodyState.bounded_run limit arrivals, ?_, ?_, ?_, ?_⟩
  · intro n
    rw [hsend]
    by_cases hover : limit < chunks.flatten.length
    · rw [if_pos hover, Except.error.injEq, SendError.tooLarge.injEq]
      exact ⟨fun h => ⟨h.symm, hover⟩, fun h => h.1.symm⟩
    · rw [if_neg hover]
      refine ⟨fun h => ?_, fun h => absurd h.2 hover⟩
      split at h
      · cases h
      · obtain ⟨fault, hfault⟩ := exists_fault_of_decoded h
        cases hfault
  · intro e
    rw [hsend]
    by_cases hover : limit < chunks.flatten.length
    · rw [if_pos hover]
      exact ⟨nofun, fun h => absurd hover (Nat.not_lt.mpr h.2.2)⟩
    · rw [if_neg hover]
      split
      · next hbreaks =>
        rw [Except.error.injEq, SendError.network.injEq]
        exact ⟨fun h => ⟨h.symm, hbreaks, Nat.le_of_not_lt hover⟩, fun h => h.1.symm⟩
      · next hends =>
        refine ⟨fun h => ?_, fun h => absurd h.2.1 hends⟩
        obtain ⟨fault, hfault⟩ := exists_fault_of_decoded h
        cases hfault
  · intro hends hfits
    rw [hsend, if_neg (Nat.not_lt.mpr hfits), hends]
    rfl
  · intro network' chunks' hanswer' hsame
    rw [send_chunked hpost hanswer' limit, hsame, hsend]

/-- A body of sixteen octets, in three chunks of which one is empty, is read at a limit of sixteen and
too large at fifteen. -/
theorem send_within_limit_exact :
    let chunks := [Utf8.encode "\x7b\"success\"", [], Utf8.encode ":true\x7d"]
    let network : Network := fun _ => some (.chunked 200 chunks false)
    send network 16 "http://localhost/api/run" "sun_we" none =
        .ok (200, { Reply.blank with success := true }) ∧
      send network 15 "http://localhost/api/run" "sun_we" none = .error (.tooLarge 15) := by
  intro chunks network
  have hbuilt : (Post.build "http://localhost/api/run" "sun_we" none).isOk = true := by
    decide +kernel
  have hreply : (Json.decodeReply chunks.flatten).toOption =
      some { Reply.blank with success := true } := by
    decide +kernel
  cases hpost : Post.build "http://localhost/api/run" "sun_we" none with
  | error e => simp [hpost, Except.isOk, Except.toBool] at hbuilt
  | ok post =>
      obtain ⟨-, -, -, hread, -⟩ := send_within_limit network 16 _ _ _ post hpost 200 chunks false rfl
      obtain ⟨-, htooLarge, -⟩ := send_within_limit network 15 _ _ _ post hpost 200 chunks false rfl
      refine ⟨?_, (htooLarge 15).mpr ⟨rfl, by decide +kernel⟩⟩
      rw [hread rfl (by decide +kernel)]
      cases hdecode : Json.decodeReply chunks.flatten with
      | error fault => simp [hdecode, Except.toOption] at hreply
      | ok reply =>
          obtain rfl : reply = _ := by simpa [hdecode, Except.toOption] using hreply
          rfl

end Relay

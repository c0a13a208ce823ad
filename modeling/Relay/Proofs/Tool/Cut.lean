import Relay.Proofs.Text.Cut
import Relay.Proofs.Tool.Capture

/-!
# The text of a stream that was cut

A report shows text, and the limit counts octets, so it can fall inside a character.  What is kept of
a stream is the first octets that it was sent, up to the limit (`octets_eq_take`): that is so without
an overflow, when all is kept, and for the stream that went over the limit, which is kept to the last
octet that has room (`Filled`).  How these octets read is told in `Relay.Proofs.Text.Cut`.
-/

namespace Relay

/-- The text that a report has for a stream. -/
def Report.shown (r : Report) : Stream → String
  | .out => r.stdout
  | .err => r.stderr

namespace Watch

/-! ## The stream that went over the limit -/

theorem stream_receive_of_overflow {limit : Nat} {w : Watch} (hover : w.overflow = true)
    (x : Signal) (s : Stream) :
    (w.receive limit x).stream s = w.stream s ∧ (w.receive limit x).overflow = true := by
  have hread : w.reading = false := by simp [reading, hover]
  cases x with
  | read t octets => simp [receive, hread, hover]
  | closed t => simp [receive, hread, hover]
  | readFailed t failure => simp [receive, hread, hover]
  | ended code => exact ⟨by cases s <;> rfl, hover⟩
  | waitFailed failure =>
      simp only [receive, hread]
      exact ⟨by cases s <;> rfl, hover⟩
  | timeout => exact ⟨by cases s <;> rfl, hover⟩

/-- Only what a signal does counts for the streams, not whether it ends the watch. -/
theorem stream_step {limit : Nat} {w : Watch} (hgoing : w.result = none) (x : Signal) :
    (∀ s, (w.step limit x).stream s = (w.receive limit x).stream s) ∧
      (w.step limit x).overflow = (w.receive limit x).overflow := by
  simp only [step, hgoing]
  split
  · exact ⟨fun _ => rfl, rfl⟩
  · exact ⟨fun s => stream_settle _ s, overflow_settle _⟩

/-- Only a read brings an overflow about. -/
theorem overflow_receive_of_not_read {limit : Nat} {x : Signal} (hx : ∀ s octets, x ≠ .read s octets)
    (w : Watch) : (w.receive limit x).overflow = w.overflow := by
  cases x with
  | read s octets => exact absurd rfl (hx s octets)
  | closed s => simp only [receive]; split <;> simp
  | readFailed s failure => simp only [receive]; split <;> rfl
  | ended code => rfl
  | waitFailed failure => simp only [receive]; split <;> rfl
  | timeout => rfl

/-- After an overflow there is a stream that was sent more than the limit and is kept up to it. -/
def Filled (limit : Nat) (signals : List Signal) (w : Watch) : Prop :=
  w.overflow = true →
    ∃ s, limit < (sent s signals).length ∧ (w.stream s).octets = (sent s signals).take limit

/-- A front that has the first octets of the whole, up to the limit, has no others before it. -/
theorem take_eq_take {limit : Nat} {front whole : Bytes} (h : front <+: whole)
    (hlimit : whole.take limit <+: front) : front.take limit = whole.take limit := by
  calc front.take limit = (front.take whole.length).take limit := by
        rw [List.take_of_length_le h.length_le]
    _ = front.take (whole.take limit).length := by rw [List.take_take, List.length_take]
    _ = whole.take limit := (List.prefix_iff_eq_take.mp hlimit).symm

theorem take_of_isPrefix {limit : Nat} {front whole : Bytes} (h : front <+: whole)
    (hlong : limit ≤ front.length) : whole.take limit = front.take limit := by
  obtain ⟨rest, rfl⟩ := h
  exact List.take_append_of_le_length hlong

theorem sent_heeded_isPrefix (limit : Nat) (w : Watch) (signals : List Signal) (s : Stream) :
    sent s (heeded limit w signals) <+: sent s signals := by
  obtain ⟨rest, hrest⟩ := heeded_isPrefix limit w signals
  have hfront := sent_isPrefix s (heeded limit w signals) rest
  rwa [hrest] at hfront

namespace Filled

variable {limit : Nat} {signals : List Signal} {w : Watch}

theorem step (h : Filled limit signals w) (hfaithful : Faithful limit signals w)
    (hgoing : w.result = none) (x : Signal) :
    Filled limit (signals ++ [x]) (w.step limit x) := by
  obtain ⟨hstream, hoverflow⟩ := @stream_step limit w hgoing x
  intro hnow
  rw [hoverflow] at hnow
  cases ho : w.overflow with
  | true =>
      obtain ⟨s, hs, hkept⟩ := h ho
      have hmore := sent_isPrefix s signals [x]
      refine ⟨s, Nat.lt_of_lt_of_le hs hmore.length_le, ?_⟩
      rw [hstream, (stream_receive_of_overflow ho x s).1, hkept,
        take_of_isPrefix hmore (Nat.le_of_lt hs)]
  | false =>
      by_cases hread : ∃ s octets, x = .read s octets
      · obtain ⟨s, octets, rfl⟩ := hread
        by_cases hactive : w.reading = true ∧ (w.stream s).closed = false
        · rw [hfaithful.receive_read hactive.1 hactive.2] at hnow hstream
          refine ⟨s, of_decide_eq_true hnow, ?_⟩
          rw [hstream]
          simp
        · -- a stream that is not read does not change
          have hreceive : w.receive limit (.read s octets) = w := by
            cases hr : w.reading <;> cases hc : (w.stream s).closed <;>
              simp [Watch.receive, hr, hc]
            exact absurd ⟨hr, hc⟩ hactive
          rw [hreceive, ho] at hnow
          cases hnow
      · have hx : ∀ s octets, x ≠ .read s octets := fun s octets hx => hread ⟨s, octets, hx⟩
        rw [overflow_receive_of_not_read hx, ho] at hnow
        cases hnow

theorem run (limit : Nat) (signals : List Signal) :
    Filled limit (heeded limit Watch.start signals) (Watch.run limit signals) := by
  -- a read is told by what was sent only of a watch that is faithful to it, so both go together
  have hboth := foldl_keeps
    (P := fun past w => Faithful limit past w ∧ Filled limit past w)
    (fun past w x hgoing h => ⟨h.1.step hgoing x, h.2.step h.1 hgoing x⟩)
    (show Faithful limit [] Watch.start ∧ Filled limit [] Watch.start from
      ⟨Faithful.start limit, nofun⟩)
    signals
  exact hboth.2

end Filled

/-! ## What is kept of one stream -/

/-- As long as the other stream stays within the limit, what is kept of a stream is what it was sent
up to the limit, however the watch ends. -/
theorem octets_eq_take (limit : Nat) (signals : List Signal) (s : Stream)
    (hother : ∀ t, t ≠ s → (sent t (heeded limit start signals)).length ≤ limit) :
    ((run limit signals).stream s).octets = (sent s (heeded limit start signals)).take limit := by
  have hfaithful := Faithful.run limit signals
  cases ho : (run limit signals).overflow with
  | false =>
      have hbound := hfaithful.bounded s
      rw [(hfaithful.whole ho s).1] at hbound ⊢
      exact (List.take_of_length_le hbound).symm
  | true =>
      obtain ⟨t, ht, hkept⟩ := Filled.run limit signals ho
      by_cases hts : t = s
      · exact hts ▸ hkept
      · exact absurd ht (Nat.not_lt.mpr (hother t hts))

/-- A watch that ends with the process has heeded all that a stream was sent, or more of it than the
limit. -/
theorem take_isPrefix_of_ended {limit : Nat} {signals : List Signal} {s : Stream}
    (hother : ∀ t, t ≠ s → (sent t (heeded limit start signals)).length ≤ limit) {code : Option Int}
    (hresult : (run limit signals).result = some (.ended code)) :
    (sent s signals).take limit <+: sent s (heeded limit start signals) := by
  cases ho : (run limit signals).overflow with
  | false =>
      have hclosed :=
        ((Faithful.run limit signals).whole_of_ended (Concluded.run limit signals) hresult ho s).1
      obtain ⟨rest, hrest⟩ := heeded_isPrefix limit start signals
      have hall : sent s signals = sent s (heeded limit start signals) := by
        rw [← sent_append_of_closed hclosed rest, hrest]
      rw [hall]
      exact List.take_prefix _ _
  | true =>
      obtain ⟨t, ht, -⟩ := Filled.run limit signals ho
      by_cases hts : t = s
      · have hfront := sent_heeded_isPrefix limit start signals s
        rw [take_of_isPrefix hfront (Nat.le_of_lt (hts ▸ ht))]
        exact List.take_prefix _ _
      · exact absurd ht (Nat.not_lt.mpr (hother t hts))

end Watch

/-- For every interleaving of signals, every limit and every text that a process writes to one
stream, while the other stays within the limit: if the watch ends with the process, or in any other
way after the text has come up to the limit, the report's text of that stream is the text itself if
its octets fit, and else the longest front of whole characters that fits, followed by one U+FFFD
exactly when the limit falls inside a character. -/
theorem cut_text_shown (limit : Nat) (timeout : Duration) (signals : List Signal) (report : Report)
    (hreport : (Watch.run limit signals).report timeout = some report) (s : Stream) (text : String)
    (hwritten : sent s signals = Utf8.encode text)
    (hother : ∀ t, t ≠ s → (sent t signals).length ≤ limit)
    (hseen : (∃ code, (Watch.run limit signals).result = some (.ended code)) ∨
      (Utf8.encode text).take limit <+: sent s (Watch.heeded limit .start signals)) :
    ((Utf8.encode text).length ≤ limit → report.shown s = text) ∧
    (limit < (Utf8.encode text).length → ∃ whole, Utf8.Fits limit text whole ∧
      (Utf8.Between limit text → report.shown s = whole) ∧
      (¬ Utf8.Between limit text → report.shown s = whole ++ "\uFFFD")) := by
  have hfront := Watch.sent_heeded_isPrefix limit .start signals
  have hotherSeen : ∀ t, t ≠ s → (sent t (Watch.heeded limit .start signals)).length ≤ limit :=
    fun t ht => Nat.le_trans (hfront t).length_le (hother t ht)
  have hcome : (sent s signals).take limit <+: sent s (Watch.heeded limit .start signals) := by
    rcases hseen with ⟨code, hresult⟩ | hseen
    · exact Watch.take_isPrefix_of_ended hotherSeen hresult
    · rw [hwritten]
      exact hseen
  have hkept : ((Watch.run limit signals).stream s).octets = (Utf8.encode text).take limit := by
    rw [Watch.octets_eq_take limit signals s hotherSeen, Watch.take_eq_take (hfront s) hcome,
      hwritten]
  have hshown : report.shown s = Utf8.decodeLossy ((Utf8.encode text).take limit) := by
    obtain ⟨hout, herr, -⟩ := Watch.report_captured hreport
    rw [← hkept]
    cases s with
    | out => exact hout
    | err => exact herr
  rw [hshown]
  refine ⟨?_, Utf8.exists_fits_of_lt⟩
  intro hfits
  rw [List.take_of_length_le hfits, Utf8.decodeLossy_encode]

/-- The limit of four octets falls inside the second of two characters of three octets each, in the
second read; the other stream is written to as well, and the process is killed. -/
theorem cut_text_shown_inside :
    let signals : List Signal := [.read .err [33], .read .out [0xE2, 0x82],
      .read .out [0xAC, 0xE2, 0x82], .read .out [0xAC], .ended none]
    ∃ report, (Watch.run 4 signals).report ⟨1, 0⟩ = some report ∧ report.stdout = "€\uFFFD" := by
  intro signals
  have hreport : (Watch.run 4 signals).report ⟨1, 0⟩ =
      some (.process .signalled [0xE2, 0x82, 0xAC, 0xE2] [33] true) := rfl
  refine ⟨_, hreport, ?_⟩
  have hcut := cut_text_shown 4 ⟨1, 0⟩ signals _ hreport .out "€€" (by decide +kernel)
    (fun t ht => by cases t with | out => exact absurd rfl ht | err => decide +kernel)
    (.inl ⟨none, rfl⟩)
  obtain ⟨whole, hfits, -, hinside⟩ := hcut.2 (by decide +kernel)
  have hone : Utf8.Fits 4 "€€" "€" :=
    @Utf8.fits_of_split 4 ['€'] [] '€' (by decide +kernel) (by decide +kernel)
  have hwhole : whole = "€" := hfits.unique hone
  have hnot : ¬ Utf8.Between 4 "€€" := by
    rw [hone.between_iff]
    decide +kernel
  exact (hinside hnot).trans (by rw [hwhole]; decide +kernel)

end Relay

import Mathlib.Data.List.Forall2
import Relay.Proofs.Session.Lines

/-!
# The transcript of a program for sessions

A program that holds a session is given octets, the end of its input and the reports on its runs, in any
order; `Move` is one of these.  A transcript is the program with all that it has written and with the
outputs of the runs that are done, each when it was.

The program writes what its session does, warnings about the history on the other stream, and a banner
and a goodbye of its own.  So every text on the output leaves a fresh line behind, and so does all that
was written up to any moment (`output_on_fresh_lines`).
-/

namespace Relay

namespace Cli.Play

open Files (Disk)

/-! ## Moves -/

/-- Something that happens to the program. -/
inductive Move where
  | typed (octets : Bytes)
  /-- The input ends. -/
  | closed
  /-- A run gets to go; `report` is what the executor has to say by now. -/
  | polled (run : Nat) (report : Option Report)
  /-- All that is in flight comes to its end. -/
  | settled (network : Network)

/-- The program after a move, and what it writes. -/
def move (p : Play) : Move → Play × List Line
  | .typed octets => p.type octets
  | .closed => p.close
  | .polled n report => p.step (.poll n report)
  | .settled network => p.settle network

/-- The outputs of the runs that are done with a move, in their order. -/
def outputs (p : Play) : Move → List String
  | .typed _ | .closed => []
  | .polled n report => ((p.session.runs.lookup n).bind (·.output? report)).toList
  | .settled network => p.session.runs.flatMap fun q =>
      (q.2.output? (q.2.request?.map (invokeRemote network p.settings p.disk))).toList

/-- A program, all that it wrote, and the outputs of the runs that are done. -/
structure Transcript where
  play : Play
  lines : List Line
  outputs : List String

namespace Transcript

/-- A program that waits for input. -/
def start (settings : RemoteSettings) (store : Store Disk) (credential : Credential Disk)
    (historyFile : Path) : Transcript :=
  let (play, lines) := interactive settings store credential historyFile
  ⟨play, lines, []⟩

/-- The transcript after a move. -/
def move (t : Transcript) (m : Move) : Transcript :=
  ⟨(t.play.move m).1, t.lines ++ (t.play.move m).2, t.outputs ++ t.play.outputs m⟩

end Transcript

/-! ## What the parts of the program write -/

/-- What comes of a program whose session is sound: it is so still, and what was written leaves fresh
lines behind. -/
structure Orderly (r : Play × List Line) : Prop where
  sound : r.1.session.Sound
  fresh : FreshLines r.2

namespace Orderly

variable {p : Play} {r : Play × List Line}

/-- One part after another. -/
theorem andThen (h : Orderly r) {f : Play → Play × List Line}
    (hf : ∀ {q : Play}, q.session.Sound → Orderly (f q)) :
    Orderly ((f r.1).1, r.2 ++ (f r.1).2) :=
  ⟨(hf h.sound).sound, h.fresh.append (hf h.sound).fresh⟩

theorem step (h : p.session.Sound) (s : Session.Step) : Orderly (p.step s) :=
  ⟨h.step p.store s, Session.freshLines_step p.store h.fresh s⟩

theorem stopReading (h : p.session.Sound) : Orderly p.stopReading := by
  unfold Play.stopReading
  split
  · exact ⟨⟨h.fresh, h.typed, h.numbered.congr rfl rfl rfl⟩, .nil⟩
  · exact ⟨h, .err _⟩

theorem readLine (h : p.session.Sound) (text : String) : Orderly (p.readLine text) := by
  unfold Play.readLine
  dsimp only
  generalize (if (Session.Input.parse text).isCommand = true then _ else _) = history
  have hread := step (p := { p with history }) h (.line text)
  split
  · exact andThen hread stopReading
  · exact hread

theorem endInput (h : p.session.Sound) {before : List Line} (hbefore : FreshLines before) :
    Orderly (p.endInput before) := by
  have hended := andThen (stopReading h) fun hq => step hq .ended
  refine ⟨hended.sound, ?_⟩
  show FreshLines (before ++ _ ++ _)
  rw [List.append_assoc]
  exact hbefore.append hended.fresh

theorem readOctets (h : p.session.Sound) (octets : Bytes) : Orderly (p.readOctets octets) := by
  unfold Play.readOctets
  dsimp only
  split
  · exact readLine h _
  · exact endInput h (.err _)

theorem readAll (h : p.session.Sound) (ls : List Bytes) : Orderly (p.readAll ls) := by
  induction ls generalizing p with
  | nil => exact ⟨h, .nil⟩
  | cons l ls ih =>
      unfold Play.readAll
      split
      · exact ⟨h, .nil⟩
      · exact andThen (readOctets h l) ih

theorem close (h : p.session.Sound) : Orderly p.close := by
  have hlast : ∀ {r : Play × List Line}, Orderly r →
      Orderly (if r.1.closed = true then r else r.1.endInput r.2) := by
    intro r hr
    split
    · exact hr
    · exact endInput hr.sound hr.fresh
  unfold Play.close
  split
  · exact ⟨h, .nil⟩
  · -- what was typed of the last line is read before the input ends
    by_cases htyped : p.typed = []
    · rw [if_pos htyped]
      exact hlast (r := (p, [])) ⟨h, .nil⟩
    · rw [if_neg htyped]
      cases Utf8.decode? p.typed with
      | none => exact hlast (endInput h (.err _))
      | some text =>
          have hread := readLine h text
          dsimp only
          generalize p.readLine text = r at hread
          exact hlast hread

theorem finishRuns (report : Disk → Request → Report) (h : p.session.Sound)
    (runs : List (Nat × Run)) : Orderly (p.finishRuns report runs) := by
  induction runs generalizing p with
  | nil => exact ⟨h, .nil⟩
  | cons q runs ih =>
      obtain ⟨n, run⟩ := q
      exact andThen (step h (.poll n _)) ih

theorem settle (network : Network) (h : p.session.Sound) : Orderly (p.settle network) := by
  have hruns := finishRuns (invokeRemote network p.settings) h p.session.runs
  unfold Play.settle
  dsimp only
  split
  · exact ⟨hruns.sound, hruns.fresh.append (.out (by decide))⟩
  · exact hruns

theorem move (h : p.session.Sound) (m : Move) : Orderly (p.move m) := by
  cases m with
  | typed octets =>
      rw [Play.move, Play.type]
      generalize (Bytes.splitOn Bytes.newline (p.typed ++ octets)).getLast?.getD [] = typed
      exact readAll (p := { p with typed }) h _
  | closed => exact close h
  | polled n report => exact step h (.poll n report)
  | settled network => exact settle network h

end Orderly

theorem orderly_interactive (settings : RemoteSettings) (store : Store Disk)
    (credential : Credential Disk) (historyFile : Path) :
    Orderly (interactive settings store credential historyFile) := by
  unfold interactive
  obtain ⟨history, fault⟩ := Session.History.start credential.state historyFile
  refine ⟨.new credential, FreshLines.append (.out (Text.fresh_ofLines _)) ?_⟩
  cases fault with
  | none => exact .nil
  | some e => exact .err _

/-! ## The outputs of runs -/

/-- What goes to the output for the outputs of runs. -/
def shownOutputs (outputs : List String) : List String :=
  outputs.map ConsoleStyle.playground.outputText

theorem shownOutputs_append (os os' : List String) :
    shownOutputs (os ++ os') = shownOutputs os ++ shownOutputs os' := List.map_append

theorem forall₂_shows (os : List String) : List.Forall₂ Shows os (shownOutputs os) := by
  rw [shownOutputs, List.forall₂_map_right_iff, List.forall₂_same]
  exact fun output _ => shows_outputText output

theorem shownOutputs_step {p : Play} (h : p.session.Sound) {n : Nat} {run : Run}
    (hrun : p.session.runs.lookup n = some run) (report : Option Report) :
    (shownOutputs (run.output? report).toList).Sublist (onOutput (p.step (.poll n report)).2) := by
  cases houtput : run.output? report with
  | none => exact List.nil_sublist _
  | some output =>
      have hwritten := h.onOutput_poll hrun houtput
      exact hwritten ▸ List.Sublist.refl _

theorem finishRuns_cons (report : Disk → Request → Report) (p : Play) {run : Run} (h : run.Typed)
    (n : Nat) (runs : List (Nat × Run)) {rep : Option Report}
    (hrep : run.request?.map (report p.disk) = rep) :
    p.finishRuns report ((n, run) :: runs) =
      (((p.step (.poll n rep)).1.finishRuns report runs).1,
        (p.step (.poll n rep)).2 ++ ((p.step (.poll n rep)).1.finishRuns report runs).2) := by
  subst hrep
  cases h <;> rfl

/-- All that is in flight is done when it comes to its end, and shown in the order in which it was
started. -/
theorem finishRuns_held (report : Disk → Request → Report) {p : Play} (h : p.session.Sound)
    {runs : List (Nat × Run)} (hnumbers : (runs.map (·.1)).Nodup)
    (hheld : ∀ q ∈ runs, p.session.runs.lookup q.1 = some q.2) :
    (p.finishRuns report runs).1.session.runs =
        p.session.runs.filter (·.1 ∉ runs.map (·.1)) ∧
      (shownOutputs (runs.flatMap fun q =>
        (q.2.output? (q.2.request?.map (report p.disk))).toList)).Sublist
          (onOutput (p.finishRuns report runs).2) := by
  induction runs generalizing p with
  | nil => exact ⟨by simp [finishRuns], List.nil_sublist _⟩
  | cons q runs ih =>
      obtain ⟨n, run⟩ := q
      have hrun : p.session.runs.lookup n = some run := hheld (n, run) List.mem_cons_self
      obtain ⟨hfirst, hrest⟩ := List.nodup_cons.mp hnumbers
      generalize hreport : run.request?.map (report p.disk) = rep
      obtain ⟨hothers, hkey⟩ := h.poll_others n rep
      have hdisk : (p.step (.poll n rep)).1.disk = p.disk := congrArg Credential.state hkey
      have hdone : (p.step (.poll n rep)).1.session.runs = p.session.runs.filter (·.1 != n) := by
        refine h.runs_poll fun run' r hrun' hr => ?_
        obtain rfl : run = run' := Option.some.inj (hrun.symm.trans hrun')
        rw [← hreport, hr]
        rfl
      have hlater : ∀ q ∈ runs, (p.step (.poll n rep)).1.session.runs.lookup q.1 = some q.2 := by
        intro q hq
        have hne : q.1 ≠ n := fun heq => hfirst (List.mem_map.mpr ⟨q, hq, heq⟩)
        exact (hothers q.1 hne).trans (hheld q (List.mem_cons_of_mem _ hq))
      obtain ⟨hruns, hshown⟩ := ih (p := (p.step (.poll n rep)).1) (h.poll n rep) hrest hlater
      rw [finishRuns_cons report p (h.typed_of_lookup hrun) n runs hreport]
      refine ⟨?_, ?_⟩
      · rw [hruns, hdone]
        exact filter_not_mem_cons n _ _
      · rw [onOutput_append, List.flatMap_cons, shownOutputs_append, hreport]
        rw [hdisk] at hshown
        exact (shownOutputs_step h hrun rep).append hshown

/-- What is in flight comes to its end, be its triggers taken or not. -/
theorem idle_settle (network : Network) {p : Play} (h : p.session.Sound) :
    (p.settle network).1.session.runs = [] ∧
      (p.settle network).1.session.controller.inFlight = 0 := by
  have hruns : (p.settle network).1.session.runs = [] := by
    have hdone := (finishRuns_held (invokeRemote network p.settings) h h.numbered.numbers
      fun _ hq => lookup_of_mem h.numbered.numbers hq).1
    have hnone : p.session.runs.filter (·.1 ∉ p.session.runs.map (·.1)) = [] :=
      List.filter_eq_nil_iff.mpr fun q hq => by simpa using ⟨q.2, hq⟩
    rw [hnone] at hdone
    unfold settle
    dsimp only
    split
    · exact hdone
    · exact hdone
  refine ⟨hruns, ?_⟩
  rw [(Orderly.settle network h).sound.numbered.count, hruns]
  rfl

theorem shownOutputs_move {p : Play} (h : p.session.Sound) (m : Move) :
    (shownOutputs (p.outputs m)).Sublist (onOutput (p.move m).2) := by
  cases m with
  | typed octets => exact List.nil_sublist _
  | closed => exact List.nil_sublist _
  | polled n report =>
      cases hrun : p.session.runs.lookup n with
      | none =>
          rw [outputs, hrun]
          exact List.nil_sublist _
      | some run =>
          rw [outputs, hrun]
          exact shownOutputs_step h hrun report
  | settled network =>
      have hruns := (finishRuns_held (invokeRemote network p.settings) h h.numbered.numbers
        fun _ hq => lookup_of_mem h.numbered.numbers hq).2
      refine hruns.trans ?_
      show (onOutput _).Sublist (onOutput (p.settle network).2)
      unfold settle
      dsimp only
      split
      · rw [onOutput_append]
        exact List.sublist_append_left _ _
      · exact List.Sublist.refl _

namespace Transcript

/-- What holds of every transcript. -/
structure Clean (t : Transcript) : Prop where
  sound : t.play.session.Sound
  fresh : FreshLines t.lines
  shown : (shownOutputs t.outputs).Sublist (onOutput t.lines)

theorem Clean.start (settings : RemoteSettings) (store : Store Disk) (credential : Credential Disk)
    (historyFile : Path) : Clean (Transcript.start settings store credential historyFile) :=
  have h := orderly_interactive settings store credential historyFile
  ⟨h.sound, h.fresh, List.nil_sublist _⟩

theorem Clean.move {t : Transcript} (h : Clean t) (m : Move) : Clean (t.move m) := by
  have hmove := Orderly.move h.sound m
  refine ⟨hmove.sound, h.fresh.append hmove.fresh, ?_⟩
  show (shownOutputs (t.outputs ++ _)).Sublist (onOutput (t.lines ++ _))
  rw [shownOutputs_append, onOutput_append]
  exact h.shown.append (shownOutputs_move h.sound m)

theorem Clean.run {t : Transcript} (h : Clean t) (moves : List Move) :
    Clean (moves.foldl Transcript.move t) := by
  induction moves generalizing t with
  | nil => exact h
  | cons m moves ih => exact ih (h.move m)

end Transcript

end Cli.Play

/-- Whatever is typed, however its runs go on and come to their ends, and whenever one looks: the program
of a session is empty or ends in a line break, and so is all that was written to the output until then.
So whatever is written next starts on a fresh line, be it a message, a listing or the output of a run.
The output of each run that is done stands in one piece where it was written, in the order in which the
runs were done, and only if it would not end its line is there a line break after it. -/
theorem output_on_fresh_lines (settings : RemoteSettings) (store : Store Files.Disk)
    (credential : Credential Files.Disk) (historyFile : Path) (moves : List Cli.Play.Move) :
    let t := moves.foldl Cli.Play.Transcript.move
      (Cli.Play.Transcript.start settings store credential historyFile)
    Text.Fresh t.play.session.program ∧
    Text.Fresh (String.join (onOutput t.lines)) ∧
    (∀ before l after, t.lines = before ++ l :: after →
      Text.Fresh (String.join (onOutput before))) ∧
    ∃ texts, texts.Sublist (onOutput t.lines) ∧ List.Forall₂ Shows t.outputs texts := by
  intro t
  have h : t.Clean := (Cli.Play.Transcript.Clean.start settings store credential historyFile).run moves
  refine ⟨h.sound.fresh, Text.fresh_join h.fresh, ?_, _, h.shown, Cli.Play.forall₂_shows t.outputs⟩
  intro before l after hlines
  refine Text.fresh_join fun text htext => h.fresh text ?_
  rw [hlines, onOutput_append]
  exact List.mem_append_left _ htext

/-- The output of a run does not end its line; the program is printed after it, and the last line is typed
without a line break and only read when the input ends. -/
theorem output_on_fresh_lines_unended :
    let moves : List Cli.Play.Move := [.typed (Utf8.encode ":reset\nx\n:run\n"),
      .polled 0 (some (.http 200 { Reply.blank with success := true, output := some "hi" })),
      .typed (Utf8.encode ":show\n:samples"), .closed]
    let t := moves.foldl Cli.Play.Transcript.move
      (Cli.Play.Transcript.start ⟨"http://localhost", 9⟩ (fileStore ⟨[]⟩) ⟨"", default⟩ ⟨[]⟩)
    t.outputs = ["hi"] ∧
    (∃ texts, texts.Sublist (onOutput t.lines) ∧ List.Forall₂ Shows ["hi"] texts) ∧
    ∃ before after, t.lines = before ++ .out "x\n" :: after ∧
      Text.Fresh (String.join (onOutput before)) := by
  intro moves t
  obtain ⟨-, -, hbefore, hshown⟩ :=
    output_on_fresh_lines ⟨"http://localhost", 9⟩ (fileStore ⟨[]⟩) ⟨"", default⟩ ⟨[]⟩ moves
  have houtputs : t.outputs = ["hi"] := by decide +kernel
  have hlines : t.lines = t.lines.take 4 ++ .out "x\n" :: t.lines.drop 5 := by decide +kernel
  exact ⟨houtputs, houtputs ▸ hshown, _, _, hlines, hbefore _ _ _ hlines⟩

end Relay

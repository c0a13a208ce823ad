import Relay.Cli.Tool
import Relay.Proofs.Files.Walk
import Relay.Proofs.Text.Utf8
import Relay.Proofs.Tool.Verdict

/-!
# The code and the output of the program for files

`jatti run|build|format FILE` is an errand, so what it asks of its surroundings is in its trip.
`operate_exit` says of every surroundings what the program asks, which code it ends with and what it
writes: a path that names no source file asks nothing and gives 2; otherwise candidates are probed
up to the first file, the tool there is started once, and the code is 0 exactly when the process
ended well.
-/

namespace Relay

/-! ## Carrying an errand out -/

namespace Errand

variable {σ α β : Type} (around : Surroundings σ) (s : σ)

/-- The questions of a search. -/
def probes (isFile : Path → Bool) : List Candidate → List Query
  | [] => []
  | c :: cs => .probe c.path :: if isFile c.path then [] else probes isFile cs

theorem countP_isSpawn_probes (isFile : Path → Bool) (cs : List Candidate) :
    (probes isFile cs).countP Query.isSpawn = 0 := by
  induction cs with
  | nil => rfl
  | cons c cs ih =>
      rw [probes, List.countP_cons_of_neg (by simp [Query.isSpawn])]
      split
      · rfl
      · exact ih

theorem spawn_not_mem_probes (isFile : Path → Bool) (cs : List Candidate) (command : Command) :
    .spawn command ∉ probes isFile cs := by
  intro hmem
  exact List.countP_eq_zero.mp (countP_isSpawn_probes isFile cs) _ hmem rfl

theorem run_map (f : α → β) (e : Errand α) :
    (e.map f).run around s =
      ⟨f (e.run around s).result, (e.run around s).state, (e.run around s).asked⟩ := by
  induction e generalizing s with
  | done result => rfl
  | probe path next ih => rw [map, run, run, ih, Trip.after, Trip.after]
  | spawn command next ih =>
      cases hspawn : around.spawn s command with
      | error failure => simp only [map, run, hspawn, ih, Trip.after]
      | ok answer => simp only [map, run, hspawn, ih, Trip.after]

/-- A search goes on with the first candidate that is a file, and has probed up to there. -/
theorem run_search (next : Option Candidate → Errand α) (cs : List Candidate) :
    (search next cs).run around s =
      let trip := (next (cs.find? fun c => around.isFile s c.path)).run around s
      { trip with asked := probes (around.isFile s) cs ++ trip.asked } := by
  induction cs with
  | nil => rfl
  | cons c cs ih =>
      cases hfile : around.isFile s c.path with
      | true => simp [search, run, Trip.after, probes, hfile]
      | false => simp [search, run, Trip.after, probes, hfile, ih]

end Errand

theorem SourceFile.ofPath_path (file : SourceFile) : SourceFile.ofPath file.path = .ok file := by
  rw [SourceFile.ofPath, SourceFile.ofPath?_eq_some_iff.mpr rfl]

theorem SourceFile.ofPath_of_not_namesSource {path : Path} (h : path.namesSource = false) :
    SourceFile.ofPath path = .error (.notSource path) := by
  simp [SourceFile.ofPath, SourceFile.ofPath?, h]

/-! ## The local executor's work -/

section Invocation

variable {σ : Type} (around : Surroundings σ) (s : σ) (limits : Limits) (settings : ToolSettings)
  (cwd : Path) (operation : Operation) (file : SourceFile)

/-- The candidate that is taken. -/
def taken? : Option Candidate :=
  (candidates settings file).find? fun c => around.isFile s c.path

/-- The command that starts the tool of a candidate. -/
def Candidate.command (c : Candidate) : Command :=
  LocalTool.command ⟨settings.interpreter, c.path⟩ cwd operation file

theorem run_invocation_none (h : taken? around s settings file = none) :
    (invocation limits settings cwd (.onFile file operation)).run around s =
      ⟨.unresolved LocateError.notFound.message, s,
        Errand.probes (around.isFile s) (candidates settings file)⟩ := by
  have hfind : (candidates settings file).find? (fun c => around.isFile s c.path) = none := h
  simp [invocation, Request.onFile, Errand.run_search, hfind, Errand.run]

theorem run_invocation_error {c : Candidate} {failure : Files.Failure}
    (h : taken? around s settings file = some c)
    (hspawn : around.spawn s (c.command settings cwd operation file) = .error failure) :
    (invocation limits settings cwd (.onFile file operation)).run around s =
      ⟨spawnReport settings.interpreter failure, s,
        Errand.probes (around.isFile s) (candidates settings file) ++
          [.spawn (c.command settings cwd operation file)]⟩ := by
  have hfind : (candidates settings file).find? (fun c => around.isFile s c.path) = some c := h
  have hcommand : around.spawn s
      (LocalTool.command ⟨settings.interpreter, c.path⟩ cwd operation file) = .error failure :=
    hspawn
  simp [invocation, Request.onFile, Errand.run_search, hfind, LocalTool.started, Errand.run,
    hcommand, Trip.after, Candidate.command]

theorem run_invocation_ok {c : Candidate} {seen : Observation} {s' : σ}
    (h : taken? around s settings file = some c)
    (hspawn : around.spawn s (c.command settings cwd operation file) = .ok (seen, s')) :
    (invocation limits settings cwd (.onFile file operation)).run around s =
      ⟨limits.judge seen, s',
        Errand.probes (around.isFile s) (candidates settings file) ++
          [.spawn (c.command settings cwd operation file)]⟩ := by
  have hfind : (candidates settings file).find? (fun c => around.isFile s c.path) = some c := h
  have hcommand : around.spawn s
      (LocalTool.command ⟨settings.interpreter, c.path⟩ cwd operation file) = .ok (seen, s') :=
    hspawn
  simp [invocation, Request.onFile, Errand.run_search, hfind, LocalTool.started, Errand.run,
    hcommand, Trip.after, Candidate.command]

/-- Nothing but a process that was started makes a success. -/
theorem isSuccess_unresolved (detail : String) :
    (Report.unresolved detail).outcome.isSuccess = false := rfl

theorem isSuccess_spawnReport (interpreter : String) (failure : Files.Failure) :
    (spawnReport interpreter failure).outcome.isSuccess = false := by
  unfold spawnReport
  split <;> rfl

/-- The program is started at most once, and not at all where there is nothing to start. -/
theorem countP_isSpawn_invocation :
    ((invocation limits settings cwd (.onFile file operation)).run around s).asked.countP
      Query.isSpawn = if (taken? around s settings file).isSome then 1 else 0 := by
  cases htaken : taken? around s settings file with
  | none =>
      rw [run_invocation_none around s limits settings cwd operation file htaken,
        Errand.countP_isSpawn_probes]
      rfl
  | some c =>
      cases hspawn : around.spawn s (c.command settings cwd operation file) with
      | error failure =>
          rw [run_invocation_error around s limits settings cwd operation file htaken hspawn,
            List.countP_append, Errand.countP_isSpawn_probes]
          rfl
      | ok answer =>
          obtain ⟨seen, s'⟩ := answer
          rw [run_invocation_ok around s limits settings cwd operation file htaken hspawn,
            List.countP_append, Errand.countP_isSpawn_probes]
          rfl

/-- The outcome is a success exactly when a program was started, and ended well. -/
theorem isSuccess_invocation_iff :
    let trip := (invocation limits settings cwd (.onFile file operation)).run around s
    trip.result.outcome.isSuccess = true ↔ ∃ command seen s', .spawn command ∈ trip.asked ∧
      around.spawn s command = .ok (seen, s') ∧
      EndedWell limits.maxOutputBytes.toNat seen.signals := by
  intro trip
  cases htaken : taken? around s settings file with
  | none =>
      have htrip : trip = _ :=
        run_invocation_none around s limits settings cwd operation file htaken
      rw [htrip, isSuccess_unresolved]
      constructor
      · intro h
        cases h
      · rintro ⟨command, -, -, hmem, -⟩
        simp only [Errand.spawn_not_mem_probes] at hmem
  | some c =>
      have hlast : ∀ command, .spawn command ∈
          Errand.probes (around.isFile s) (candidates settings file) ++
            [.spawn (c.command settings cwd operation file)] ↔
          command = c.command settings cwd operation file := by
        intro command
        simp [Errand.spawn_not_mem_probes]
      cases hspawn : around.spawn s (c.command settings cwd operation file) with
      | error failure =>
          have htrip : trip = _ :=
            run_invocation_error around s limits settings cwd operation file htaken hspawn
          rw [htrip, isSuccess_spawnReport]
          constructor
          · intro h
            cases h
          · rintro ⟨command, seen, s', hmem, hok, -⟩
            rw [(hlast command).mp hmem, hspawn] at hok
            cases hok
      | ok answer =>
          obtain ⟨seen, s'⟩ := answer
          have htrip : trip = _ :=
            run_invocation_ok around s limits settings cwd operation file htaken hspawn
          rw [htrip, Limits.judge_isSuccess_iff]
          constructor
          · intro h
            exact ⟨_, seen, s', (hlast _).mpr rfl, hspawn, h⟩
          · rintro ⟨command, seen', s'', hmem, hok, hended⟩
            rw [(hlast command).mp hmem, hspawn] at hok
            cases hok
            exact hended

end Invocation

/-! ## What the program shows -/

namespace Cli

/-- What was written to a stream. -/
def writtenTo (s : Stream) (written : List (Stream × Bytes)) : Bytes :=
  (written.filter (·.1 == s)).flatMap (·.2)

theorem code_reported (operation : Operation) (file : SourceFile) (report : Report) :
    (reported operation file report).code = if report.outcome.isSuccess then 0 else 1 := rfl

theorem writtenTo_append (s : Stream) (xs ys : List (Stream × Bytes)) :
    writtenTo s (xs ++ ys) = writtenTo s xs ++ writtenTo s ys := by
  simp [writtenTo]

theorem lines_reported (operation : Operation) (file : SourceFile) (report : Report) :
    (reported operation file report).lines =
      [.out "", .out (operation.header file),
        .out (report.outcome.editor operation file).output] ++
      ConsoleStyle.editor.shown (.status (report.outcome.editor operation file).status) := by
  simp [reported, Controller.advance, Controller.accepts, Controller.new, Controller.await,
    Controller.finish, Controller.claim, Controller.shown, Request.onFile, Effect.events,
    ConsoleStyle.shownAll, ConsoleStyle.shown, ConsoleStyle.outputText]

/-- A status is not output. -/
theorem writtenTo_out_status (status : Status) :
    writtenTo .out (encoded (ConsoleStyle.editor.shown (.status status))) = [] := by
  simp only [ConsoleStyle.shown]
  split <;> rfl

/-- The output is the header of the operation and what the editor shows for the outcome. -/
theorem writtenTo_out_reported (operation : Operation) (file : SourceFile) (report : Report) :
    writtenTo .out (encoded (reported operation file report).lines) =
      Utf8.encode (operation.header file ++ (report.outcome.editor operation file).output) := by
  rw [lines_reported, encoded, List.map_append, writtenTo_append]
  have hstatus := writtenTo_out_status (report.outcome.editor operation file).status
  rw [encoded] at hstatus
  rw [hstatus, List.append_nil, Utf8.encode_append]
  simp [writtenTo, Line.out, Utf8.encode]

theorem run_operate {σ : Type} (around : Surroundings σ) (s : σ) (settings : Settings) (cwd : Path)
    (operation : Operation) {path : Path} {file : SourceFile}
    (h : SourceFile.ofPath path = .ok file) :
    (operate settings cwd operation path).run around s =
      let trip := (invocation (limitsOf settings) settings.tool cwd
        (.onFile file operation)).run around s
      ⟨reported operation file trip.result, trip.state, trip.asked⟩ := by
  rw [operate, h]
  exact Errand.run_map around s (reported operation file) _

end Cli

/-- Where there are no files the settings are the defaults with what the variables set. -/
theorem Settings.load_of_no_files (vars : Variables) :
    Settings.load ⟨⟨[]⟩, []⟩ vars none = .ok (Settings.default.applyVariables vars.get?, vars) := by
  let d : Files.Disk := ⟨⟨[]⟩, []⟩
  have henv : d.tree.walk true d.cwd ((Files.Disk.pathOf []).join (.ofString envFileName)) =
      .ok (.free [] (Utf8.encode envFileName) false) :=
    Files.Tree.walk_eq_ok_iff.mpr ⟨by decide +kernel,
      .free rfl ⟨by decide, by decide, by decide⟩ rfl⟩
  have hdocument : d.tree.walk true d.cwd (.ofString settingsFile) =
      .ok (.free [] (Utf8.encode settingsFile) false) :=
    Files.Tree.walk_eq_ok_iff.mpr ⟨by decide +kernel,
      .free rfl ⟨by decide, by decide, by decide⟩ rfl⟩
  have hfind : findEnvFile d (upwards d.cwd) = none := by
    show findEnvFile d [[]] = none
    simp only [findEnvFile, Files.Disk.stat, henv, if_true]
  have hvars : withEnvFile d vars = vars := by rw [withEnvFile, hfind]
  have hmissing : d.pathExists (.ofString settingsFile) = false := by
    simp only [Files.Disk.pathExists, Files.Disk.stat, hdocument]
    rfl
  show Settings.load d vars none = _
  simp only [load, hvars, documentLayer, hmissing]
  rfl

/-- For every surroundings, settings, path and operation: a path that names no source file gives
the code 2, and nothing is asked.  For a source file a program is started at most once, and not at
all when no candidate is a file; the code is 0 exactly when a program was started and ended well,
with its streams at their ends within the limit and the exit code 0 before the time limit, and it
is 1 otherwise; the output is the header and what the editor shows for the one outcome of the
executor's report.  The program for files, once its arguments and settings are read, is this errand
on its machine. -/
theorem operate_exit {σ : Type} (around : Surroundings σ) (s : σ) (settings : Settings)
    (cwd : Path) (operation : Operation) (path : Path) :
    let trip := (Cli.operate settings cwd operation path).run around s
    (∀ e, SourceFile.ofPath path = .error e → trip.result.code = 2 ∧ trip.asked = []) ∧
    (∀ file, SourceFile.ofPath path = .ok file →
      let report := ((invocation (Cli.limitsOf settings) settings.tool cwd
        (.onFile file operation)).run around s).result
      trip.asked.countP Query.isSpawn ≤ 1 ∧
      ((∀ c ∈ candidates settings.tool file, around.isFile s c.path = false) →
        trip.asked.countP Query.isSpawn = 0) ∧
      (trip.result.code = 0 ↔ ∃ command seen s', .spawn command ∈ trip.asked ∧
        around.spawn s command = .ok (seen, s') ∧
        EndedWell settings.maxOutputBytes.toNat seen.signals) ∧
      (trip.result.code ≠ 0 → trip.result.code = 1) ∧
      Cli.writtenTo .out (Cli.encoded trip.result.lines) =
        Utf8.encode (operation.header file ++ (report.outcome.editor operation file).output)) ∧
    ∀ (launch : Launcher) (world : World) (args : List String) (a : Cli.ToolArguments)
      (loaded : Settings) (vars : Variables),
      Cli.ToolArguments.parse args = .ok a →
      Settings.load world.disk world.vars a.config = .ok (loaded, vars) →
      a.task = .operate operation →
      let settings := a.apply world.disk.cwdPath loaded
      let trip := (Cli.operate settings world.disk.cwdPath operation a.file).run
        (surroundings launch (Cli.limitsOf settings) vars) world.disk
      Cli.runTool launch world args = trip.result.finish trip.state := by
  refine ⟨?_, ?_, ?_⟩
  · intro e he
    simp [Cli.operate, he, Errand.run, Cli.gated]
  · intro file hfile
    rw [Cli.run_operate around s settings cwd operation hfile]
    simp only [Cli.code_reported]
    refine ⟨?_, ?_, ?_, ?_, Cli.writtenTo_out_reported operation file _⟩
    · rw [countP_isSpawn_invocation]
      split <;> omega
    · intro hnone
      have htaken : taken? around s settings.tool file = none :=
        List.find?_eq_none.mpr fun c hc => by simp [hnone c hc]
      rw [countP_isSpawn_invocation, htaken]
      rfl
    · have hsuccess := isSuccess_invocation_iff around s (Cli.limitsOf settings) settings.tool cwd
        operation file
      exact Iff.trans (by simp) hsuccess
    · simp
  · intro launch world args a loaded vars hparse hload htask
    simp only [Cli.runTool, hparse, hload, htask]

/-- The tool beside the file writes to both streams, closes them and exits with 0 before the time
limit comes, so the code is 0; on a machine with no files, a path that names no source file gives
the program the code 2. -/
theorem operate_exit_beside :
    let around : Surroundings Unit :=
      ⟨fun _ path => path.display == "d/cli.py", fun _ _ => .ok (⟨[.read .out [104], .closed .out,
        .read .err [33], .ended (some 0), .closed .err, .timeout], by decide⟩, ())⟩
    ((Cli.operate .default (.ofString "/w") .run (.ofString "d/a.jatti")).run around ()).result.code
        = 0 ∧
      (Cli.runTool (fun _ _ => .error (.system .noEntry)) ⟨⟨⟨[]⟩, []⟩, []⟩ ["run", "a.txt"]).code
        = 2 := by
  intro around
  refine ⟨?_, ?_⟩
  · let file : SourceFile := ⟨.ofString "d/a.jatti", by decide +kernel⟩
    let script : Candidate := ⟨.besideFile, .ofString "d/cli.py"⟩
    have hfile : SourceFile.ofPath (.ofString "d/a.jatti") = .ok file := SourceFile.ofPath_path file
    refine ((operate_exit around () .default (.ofString "/w") .run _).2.1 file hfile).2.2.1.mpr ?_
    refine ⟨script.command .default (.ofString "/w") .run file, _, (), ?_, rfl, ?_⟩
    · decide +kernel
    · exact ⟨fun s => by cases s <;> decide +kernel, by decide +kernel⟩
  · have hother : SourceFile.ofPath (.ofString "a.txt") = .error (.notSource _) :=
      SourceFile.ofPath_of_not_namesSource (by decide +kernel)
    let launch : Launcher := fun _ _ => .error (.system .noEntry)
    let world : World := ⟨⟨⟨[]⟩, []⟩, []⟩
    let a : Cli.ToolArguments := ⟨none, none, none, [], none, .operate .run, .ofString "a.txt"⟩
    let settings := a.apply world.disk.cwdPath (Settings.default.applyVariables (Variables.get? []))
    obtain ⟨hgate, -, hrun⟩ := operate_exit (surroundings launch (Cli.limitsOf settings) [])
      world.disk settings world.disk.cwdPath .run a.file
    rw [hrun launch world ["run", "a.txt"] a _ _ rfl (Settings.load_of_no_files []) rfl]
    exact (hgate _ hother).1

end Relay

import Relay.Proofs.Locate.Configured
import Relay.Proofs.Locate.Source
import Relay.Proofs.Path.Absolute
import Relay.Tool.Command

/-!
# What a command refers to

The tool is started in its own directory and not in that of the user, so what a relative path refers to
changes on the way.  The script and the source file are made absolute first and keep their meaning
(`command_keeps_paths`).  The interpreter is passed as it is set, so that one set by a relative path is
looked for from the tool's directory: it is the one that was meant only if the tool stands in the working
directory (`program_kept_iff`).
-/

namespace Relay

open Bytes (slash dot)

/-! ## Paths that mean the same everywhere -/

/-- The path `q` is what `p` is from the working directory `cwd`, and needs no directory for it. -/
structure Path.Settled (p cwd q : Path) : Prop where
  starts : q.bytes.head? = some slash
  components : q.components = p.stepsFrom cwd
  absolute : ∀ dir, q.absolute dir = q
  stepsFrom : ∀ dir, q.stepsFrom dir = p.stepsFrom cwd

theorem Path.settled_absolute {p cwd : Path} (hp : p.bytes ≠ []) (hcwd : cwd.Normal) :
    p.Settled cwd (p.absolute cwd) := by
  have habsolute := isAbsolute_absolute hp hcwd.isAbsolute
  exact
    { starts := by simpa [isAbsolute] using habsolute
      components := components_absolute hp cwd
      absolute := absolute_absolute hp hcwd
      stepsFrom := fun dir => by
        rw [stepsFrom_of_isAbsolute habsolute, components_absolute hp] }

/-- The steps to a folder are those of the folder made absolute; the empty one is the working
directory. -/
theorem Path.stepsFrom_eq_components (folder cwd : Path) :
    folder.stepsFrom cwd =
      (if folder.bytes = [] then cwd else folder.absolute cwd).components := by
  split
  · next h =>
      obtain rfl := eq_mk h
      have hrelative : ¬ (⟨[]⟩ : Path).isAbsolute = true := by decide
      rw [stepsFrom_of_not_isAbsolute hrelative]
      exact List.append_nil _
  · next h => rw [components_absolute h]

/-! ## Where the tool stands -/

theorem names_of_endsInScript {u : String} (h : EndsInScript u) : (Path.ofString u).names ≠ [] := by
  obtain ⟨front, p, y, hu, -, hy⟩ := h
  have hlast : ∀ c, u.toList = front ++ ['.', p, c] → ∀ b, String.utf8EncodeChar c = [b] →
      b ∈ Utf8.encode u := by
    intro c hc b hb
    rw [Utf8.encode, hc]
    simp [hb]
  -- a text without names is all slashes and dots, but this one ends in a letter
  intro hnames
  rw [Path.names_eq] at hnames
  rcases hy with rfl | rfl
  · have hmem := hlast 'y' hu 0x79 (by decide)
    exact absurd (Path.eq_slash_or_dot_of_named hnames hmem) (by decide)
  · have hmem := hlast 'Y' hu 0x59 (by decide)
    exact absurd (Path.eq_slash_or_dot_of_named hnames hmem) (by decide)

/-- Wherever the tool is looked for, there is a name to look for. -/
theorem names_of_mem_searchPaths {s : ToolSettings} {file : SourceFile} {p : Path}
    (h : p ∈ searchPaths s file) : p.names ≠ [] := by
  rcases List.mem_append.mp h with hconfigured | hplaced
  · rcases configured?_cases (Option.mem_toList.mp hconfigured) with ⟨hscript, hp⟩ | ⟨-, hp⟩
    · exact hp ▸ names_of_endsInScript hscript
    · exact hp ▸ Path.names_of_components (components_scriptIn _)
  · have hplaced : p ∈ (file.directory :: s.workspaceFolders).map scriptIn := hplaced
    obtain ⟨folder, -, rfl⟩ := List.mem_map.mp hplaced
    exact Path.names_of_components (components_scriptIn folder)

/-- The directory that a tool is started in, against the folder that its script is in. -/
theorem components_directory {folder cwd dir : Path} {piece : Bytes}
    (h : (scriptIn folder).stepsFrom cwd = dir.components ++ [.ofPiece piece]) :
    dir.components = folder.stepsFrom cwd := by
  rw [Path.stepsFrom_snoc (components_scriptIn folder)] at h
  exact (List.append_inj' h rfl).1.symm

/-- From a normal working directory, whichever candidate the tool is: script and file are passed as
paths that mean everywhere what they meant there.  The tool is started in the directory that holds the
script, so that a script in a folder runs in that folder, and one beside the file in the directory of the
file. -/
theorem command_keeps_paths {cwd : Path} (hcwd : cwd.Normal) {s : ToolSettings} {file : SourceFile}
    {c : Candidate} (hc : c ∈ candidates s file) (interpreter : String) (o : Operation) :
    ∃ script source dir : Path,
      (LocalTool.mk interpreter c.path).command cwd o file =
        { program := interpreter
          arguments := [script.bytes, Utf8.encode o.word, source.bytes]
          directory := some dir } ∧
      c.path.Settled cwd script ∧ file.path.Settled cwd source ∧
      (∃ piece, script.components = dir.components ++ [.ofPiece piece]) ∧
      (∀ folder, c.path = scriptIn folder →
        dir.components = (if folder.bytes = [] then cwd else folder.absolute cwd).components) ∧
      (c.path = scriptIn file.directory →
        source.components = dir.components ++ [.name (Utf8.encode file.displayName)]) := by
  have hpath : c.path ∈ searchPaths s file := map_path_candidates s file ▸ List.mem_map_of_mem hc
  have hnames := names_of_mem_searchPaths hpath
  obtain ⟨dir, piece, hdir, hsteps⟩ := Path.exists_parent_absolute hnames cwd
  have hscript := Path.settled_absolute (Path.bytes_of_names hnames) hcwd
  have hsource := Path.settled_absolute (Path.bytes_of_names (Path.names_of_components file.components_eq)) hcwd
  refine ⟨c.path.absolute cwd, file.path.absolute cwd, dir, ?_, hscript, hsource,
    ⟨piece, hscript.components.trans hsteps⟩, ?_, ?_⟩
  · rw [LocalTool.command, hdir]
  · intro folder hfolder
    rw [hfolder] at hsteps
    rw [components_directory hsteps, Path.stepsFrom_eq_components]
  · intro hbeside
    rw [hbeside] at hsteps
    rw [hsource.components, Path.stepsFrom_snoc file.components_eq,
      components_directory hsteps]

/-- The tool beside a file that is reached through `..` runs in the directory of that file. -/
theorem command_keeps_paths_beside :
    let cwd : Path := .ofString "/w"
    let file : SourceFile := ⟨.ofString "./src//../p.jatti", by decide +kernel⟩
    let c : Candidate := ⟨.besideFile, scriptIn file.directory⟩
    cwd.Normal ∧ c ∈ candidates .default file ∧
      ∃ script source dir : Path,
        (LocalTool.mk "python" c.path).command cwd .format file =
          { program := "python"
            arguments := [script.bytes, Utf8.encode "format", source.bytes]
            directory := some dir } ∧
        c.path.Settled cwd script ∧ file.path.Settled cwd source ∧
        dir.components = [.root, .name (Utf8.encode "w"), .name (Utf8.encode "src"), .up] ∧
        source.components = dir.components ++ [.name (Utf8.encode "p.jatti")] := by
  intro cwd file c
  have hcwd : cwd.Normal := by decide +kernel
  have hc : c ∈ candidates .default file := by decide +kernel
  obtain ⟨script, source, dir, hcommand, hscript, hsource, -, hfolder, hbeside⟩ :=
    command_keeps_paths hcwd hc "python" .format
  have hname : file.displayName = "p.jatti" := by decide +kernel
  refine ⟨hcwd, hc, script, source, dir, hcommand, hscript, hsource, ?_, ?_⟩
  · rw [hfolder file.directory rfl]
    decide +kernel
  · rw [hbeside rfl, hname]

/-! ## The interpreter -/

/-- The steps to the program of a command, if there is a slash in its name: a relative one is followed
from the directory that the command starts in. -/
def Command.programSteps (c : Command) (cwd : Path) : List Path.Component :=
  (Path.ofString c.program).stepsFrom (c.directory.getD cwd)

/-- An interpreter set with a slash is found where the setting meant exactly when the setting is absolute
or the tool stands in the working directory. -/
theorem program_kept_iff {isFile : Path → Bool} {s : ToolSettings} {file : SourceFile}
    {tool : LocalTool} (hslash : '/' ∈ s.interpreterPath.toList)
    (htool : locate isFile s file = .ok tool) (cwd : Path) (o : Operation) :
    '/' ∈ (tool.command cwd o file).program.toList ∧
    ∃ dir piece, (tool.command cwd o file).directory = some dir ∧
      tool.script.stepsFrom cwd = dir.components ++ [.ofPiece piece] ∧
      ((tool.command cwd o file).programSteps cwd =
          (Path.ofString (Text.trim s.interpreterPath)).stepsFrom cwd ↔
        (Path.ofString (Text.trim s.interpreterPath)).isAbsolute = true ∨
          dir.components = cwd.components) := by
  obtain ⟨hinterpreter, hfirst⟩ := locate_eq_ok_iff.mp htool
  have htrim := Text.mem_trim (by decide) hslash
  have hprogram : tool.interpreter = Text.trim s.interpreterPath := by
    rw [hinterpreter, ToolSettings.interpreter, if_neg]
    intro hempty
    rw [hempty] at htrim
    cases htrim
  have hmem : tool.script ∈ searchPaths s file := by
    obtain ⟨before, after, hpaths, -⟩ := hfirst
    rw [hpaths]
    exact List.mem_append_right _ List.mem_cons_self
  obtain ⟨dir, piece, hdir, hsteps⟩ :=
    Path.exists_parent_absolute (names_of_mem_searchPaths hmem) cwd
  have hdirectory : (tool.command cwd o file).directory = some dir := hdir
  have hname : (tool.command cwd o file).program = Text.trim s.interpreterPath := hprogram
  refine ⟨hname ▸ htrim, dir, piece, hdirectory, hsteps, ?_⟩
  rw [Command.programSteps, hdirectory, hname, Option.getD_some]
  by_cases habsolute : (Path.ofString (Text.trim s.interpreterPath)).isAbsolute = true
  · simp only [Path.stepsFrom_of_isAbsolute habsolute, habsolute, true_or]
  · -- both end in the names of the setting, so what counts is the directory before them
    simp [Path.stepsFrom_of_not_isAbsolute habsolute, habsolute]

/-- A tool at the root of the workspace, which is the working directory, leaves a relative interpreter
where it is. -/
theorem program_kept_iff_workspace :
    let cwd : Path := .ofString "/w"
    let file : SourceFile := ⟨.ofString "d/demo.jatti", by decide +kernel⟩
    let s : ToolSettings := ⟨" ./sh", "", [cwd]⟩
    let tool : LocalTool := ⟨"./sh", .ofString "/w/cli.py"⟩
    '/' ∈ s.interpreterPath.toList ∧ locate (· = .ofString "/w/cli.py") s file = .ok tool ∧
      (tool.command cwd .run file).programSteps cwd = (Path.ofString "./sh").stepsFrom cwd := by
  intro cwd file s tool
  have hslash : '/' ∈ s.interpreterPath.toList := by decide +kernel
  have htool : locate (· = .ofString "/w/cli.py") s file = .ok tool :=
    locate_eq_ok_iff.mpr ⟨by decide +kernel, firstFile_iff.mpr (by decide +kernel)⟩
  obtain ⟨-, dir, piece, hdirectory, -, hkept⟩ := program_kept_iff hslash htool cwd .run
  have hdir : (tool.command cwd .run file).directory = some (.ofString "/w") := by decide +kernel
  obtain rfl := Option.some.inj (hdirectory.symm.trans hdir)
  have htrim : Text.trim s.interpreterPath = "./sh" := by decide +kernel
  rw [htrim] at hkept
  exact ⟨hslash, htool, hkept.mpr (.inr rfl)⟩

/-- With the tool beside a file in another directory, a relative interpreter is looked for in that
directory. -/
theorem program_lost_beside_file :
    let cwd : Path := .ofString "/w"
    let file : SourceFile := ⟨.ofString "d/demo.jatti", by decide +kernel⟩
    let tool : LocalTool := ⟨"./sh", .ofString "d/cli.py"⟩
    locate (· = .ofString "d/cli.py") ⟨"./sh", "", []⟩ file = .ok tool ∧
      (tool.command cwd .run file).programSteps cwd = (Path.ofString "d/sh").stepsFrom cwd ∧
      (tool.command cwd .run file).programSteps cwd ≠ (Path.ofString "./sh").stepsFrom cwd := by
  intro cwd file tool
  refine ⟨?_, ?_, ?_⟩
  · exact locate_eq_ok_iff.mpr ⟨by decide +kernel, firstFile_iff.mpr (by decide +kernel)⟩
  · decide +kernel
  · decide +kernel

end Relay

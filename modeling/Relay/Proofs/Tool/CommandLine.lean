import Relay.Proofs.Files.Walk
import Relay.Proofs.Locate.Search
import Relay.Proofs.Path.Text
import Relay.Proofs.Tool.Quoting
import Relay.Tool.Invoke

/-!
# The printed command and the command that is run

The line that is printed for a file and the command that a terminal run starts are made from the
same three texts.  The line puts them between double quotes as they are, so typing it starts the
command exactly if each of them is inert there (`printed_line_runs_command_iff`).
-/

namespace Relay

open Quoting (words? inert)
open Utf8 (IsText)

theorem toList_commandLine (tool : LocalTool) (cwd : Path) (file : SourceFile) :
    (tool.commandLine cwd file).toList =
      Quoting.typed tool.interpreter.toList (tool.script.absolute cwd).display.toList
        (file.path.absolute cwd).display.toList := by
  simp [LocalTool.commandLine, inQuotes, Quoting.typed, Operation.word]

theorem words?_commandLine_iff (tool : LocalTool) (cwd : Path) (file : SourceFile) :
    words? (tool.commandLine cwd file) =
        some [tool.interpreter, (tool.script.absolute cwd).display, "run",
          (file.path.absolute cwd).display] ↔
      inert tool.interpreter.toList = true ∧
        inert (tool.script.absolute cwd).display.toList = true ∧
        inert (file.path.absolute cwd).display.toList = true := by
  rw [← Quoting.readWords_typed_iff, words?, toList_commandLine]
  have hinjective : Function.Injective (Option.map (List.map String.ofList)) :=
    Option.map_injective (List.map_injective_iff.mpr fun _ _ h => String.ofList_injective h)
  rw [← hinjective.eq_iff]
  simp

/-- The words of a command, as its process gets them. -/
def Command.words (c : Command) : List Bytes := Utf8.encode c.program :: c.arguments

theorem words_command {tool : LocalTool} {cwd : Path} {file : SourceFile}
    (hcwd : IsText cwd.bytes) (hscript : IsText tool.script.bytes) (hfile : IsText file.path.bytes) :
    (tool.command cwd .run file).words =
      [tool.interpreter, (tool.script.absolute cwd).display, "run",
        (file.path.absolute cwd).display].map Utf8.encode := by
  simp only [List.map_cons, List.map_nil, Path.encode_display_absolute hscript hcwd,
    Path.encode_display_absolute hfile hcwd]
  rfl

theorem runInTerminal_of_locate (launch : Launcher) {s : ToolSettings} {world : World}
    {file : SourceFile} {tool : LocalTool} (h : locate world.disk.isFile s file = .ok tool) :
    runInTerminal launch s world file =
      (launch world (tool.command world.disk.cwdPath .run file)).mapError
        (.spawn tool.interpreter) := by
  rw [runInTerminal, h]
  dsimp only
  cases launch world (tool.command world.disk.cwdPath .run file) with
  | error failure => rfl
  | ok r => rfl

/-- Where the tool is found and the paths are text, there is a line, and typing it runs what a
terminal run starts exactly if the interpreter and both absolute paths are inert between quotes. -/
theorem printed_line_runs_command_iff (launch : Launcher) {s : ToolSettings} {world : World}
    {file : SourceFile} {tool : LocalTool} (htool : locate world.disk.isFile s file = .ok tool)
    (hcwd : IsText world.disk.cwdPath.bytes) (hscript : IsText tool.script.bytes)
    (hfile : IsText file.path.bytes) :
    let cwd := world.disk.cwdPath
    let command := tool.command cwd .run file
    ∃ line, localCommandLine s world.disk file = .ok line ∧
      runInTerminal launch s world file =
        (launch world command).mapError (.spawn s.interpreter) ∧
      command.words = [Utf8.encode s.interpreter, (tool.script.absolute cwd).bytes,
        Utf8.encode "run", (file.path.absolute cwd).bytes] ∧
      ((words? line).map (·.map Utf8.encode) = some command.words ↔
        inert s.interpreter.toList = true ∧
          inert (tool.script.absolute cwd).display.toList = true ∧
          inert (file.path.absolute cwd).display.toList = true) := by
  intro cwd command
  have hinterpreter : tool.interpreter = s.interpreter := (locate_eq_ok_iff.mp htool).1
  refine ⟨tool.commandLine cwd file, ?_, ?_, ?_, ?_⟩
  · rw [localCommandLine, htool]
  · rw [runInTerminal_of_locate launch htool, hinterpreter]
  · rw [← hinterpreter]
    rfl
  · rw [← hinterpreter, ← words?_commandLine_iff, words_command hcwd hscript hfile]
    -- no two texts have the same octets
    have hinjective : Function.Injective (Option.map (List.map Utf8.encode)) :=
      Option.map_injective (List.map_injective_iff.mpr fun _ _ h => Utf8.encode_injective h)
    exact hinjective.eq_iff (b := some _)

/-- A disk with the script at its root, which is the working directory. -/
def scriptAtRoot : Files.Disk :=
  ⟨⟨[([Utf8.encode entryPoint], .file (Utf8.encode "exit 0\n") false)]⟩, []⟩

theorem isFile_scriptAtRoot : scriptAtRoot.isFile (.ofString entryPoint) = true := by
  have hwalk : scriptAtRoot.tree.walk true scriptAtRoot.cwd (.ofString entryPoint) =
      .ok (.found [Utf8.encode entryPoint] (.file (Utf8.encode "exit 0\n") false)) :=
    Files.Tree.walk_eq_ok_iff.mpr ⟨by decide +kernel,
      .enter rfl ⟨by decide +kernel, by decide +kernel, by decide +kernel⟩ rfl nofun
        (.stop rfl nofun)⟩
  simp only [Files.Disk.isFile, Files.Disk.stat, hwalk]

theorem locate_scriptAtRoot {s : ToolSettings} {file : SourceFile} {tool : LocalTool}
    (hinterpreter : tool.interpreter = s.interpreter) (hscript : tool.script = .ofString entryPoint)
    (hpaths : searchPaths s file = [.ofString entryPoint]) :
    locate scriptAtRoot.isFile s file = .ok tool := by
  refine locate_eq_ok_iff.mpr ⟨hinterpreter, firstFile_iff.mpr ?_⟩
  rw [hpaths, hscript, List.find?_cons_of_pos isFile_scriptAtRoot]

/-- Blanks, single quotes, a hash mark and a backslash before a letter do no harm. -/
theorem printed_line_runs_command_iff_blanks :
    let s : ToolSettings := ⟨" my sh ", "", []⟩
    let file : SourceFile := ⟨.ofString "it's #1\\a.jatti", by decide +kernel⟩
    let tool : LocalTool := ⟨"my sh", .ofString "cli.py"⟩
    let world : World := ⟨scriptAtRoot, default⟩
    locate scriptAtRoot.isFile s file = .ok tool ∧ IsText scriptAtRoot.cwdPath.bytes ∧
      IsText tool.script.bytes ∧ IsText file.path.bytes ∧
      ∃ line, localCommandLine s world.disk file = .ok line ∧
        (words? line).map (·.map Utf8.encode) =
          some (tool.command scriptAtRoot.cwdPath .run file).words := by
  intro s file tool world
  have htool : locate scriptAtRoot.isFile s file = .ok tool :=
    locate_scriptAtRoot (by decide +kernel) rfl (by decide +kernel)
  have hcwd : IsText scriptAtRoot.cwdPath.bytes := by decide +kernel
  have hscript : IsText tool.script.bytes := by decide +kernel
  have hfile : IsText file.path.bytes := by decide +kernel
  obtain ⟨line, hline, -, -, hwords⟩ :=
    printed_line_runs_command_iff (fun w _ => .ok (⟨[], some 0⟩, w.disk))
      (show locate world.disk.isFile s file = .ok tool from htool) hcwd hscript hfile
  exact ⟨htool, hcwd, hscript, hfile, line, hline, hwords.mpr (by decide +kernel)⟩

/-- With a quote in the name of the file, the line that is printed is not even a complete one. -/
theorem quote_in_name_breaks_line :
    let s : ToolSettings := ⟨"sh", "", []⟩
    let file : SourceFile := ⟨.ofString "a\"b.jatti", by decide +kernel⟩
    let tool : LocalTool := ⟨"sh", .ofString "cli.py"⟩
    locate scriptAtRoot.isFile s file = .ok tool ∧
      ∃ line, localCommandLine s scriptAtRoot file = .ok line ∧
        line = "\"sh\" \"/cli.py\" run \"/a\"b.jatti\"" ∧ words? line = none := by
  intro s file tool
  have htool : locate scriptAtRoot.isFile s file = .ok tool :=
    locate_scriptAtRoot (by decide +kernel) rfl (by decide +kernel)
  refine ⟨htool, tool.commandLine scriptAtRoot.cwdPath file, ?_, ?_, ?_⟩
  · rw [localCommandLine, htool]
  · decide +kernel
  · decide +kernel

end Relay

import Mathlib.Data.List.Find
import Relay.Locate

/-!
# The first file wins

The search for the tool goes through the origins in their order and through the paths of each, and
takes the first candidate that is a file.  `searchPaths` lists the same paths without the origins:
the configured one if there is one, the one beside the source file, one for each workspace folder.
`locate_first_file` says that the tool is at the first file of this list and that there is none
exactly when the list has no file.

What follows about workspace folders comes from one observation: two searches that find the same
first file, with one interpreter, have one answer (`locate_congr`).  So every change to the folders
is a fact about the first file of a list.
-/

namespace Relay

/-! ## The paths that are searched -/

/-- The tool's script in a folder. -/
def scriptIn (folder : Path) : Path := folder.join (.ofString entryPoint)

/-- Where the tool may be, in order: where the settings say, if they say it, beside the source
file, and at the root of each workspace folder. -/
def searchPaths (s : ToolSettings) (file : SourceFile) : List Path :=
  (configured? s.toolPath).toList ++ scriptIn file.directory :: s.workspaceFolders.map scriptIn

/-- The settings with other workspace folders. -/
def ToolSettings.inFolders (s : ToolSettings) (folders : List Path) : ToolSettings :=
  { s with workspaceFolders := folders }

/-- A path is the first of some that is a file. -/
def FirstFile (isFile : Path → Bool) (paths : List Path) (path : Path) : Prop :=
  ∃ before after, paths = before ++ path :: after ∧ isFile path = true ∧
    ∀ earlier ∈ before, isFile earlier = false

theorem map_path_candidates (s : ToolSettings) (file : SourceFile) :
    (candidates s file).map Candidate.path = searchPaths s file := by
  simp [candidates, CandidateOrigin.searchOrder, CandidateOrigin.paths, searchPaths, scriptIn,
    Function.comp_def]

theorem searchPaths_inFolders_append (s : ToolSettings) (file : SourceFile)
    (before after : List Path) :
    searchPaths (s.inFolders (before ++ after)) file =
      searchPaths (s.inFolders before) file ++ after.map scriptIn := by
  simp [searchPaths, ToolSettings.inFolders]

theorem scriptIn_mem_searchPaths {s : ToolSettings} {folder : Path}
    (h : folder ∈ s.workspaceFolders) (file : SourceFile) :
    scriptIn folder ∈ searchPaths s file := by
  refine List.mem_append_right _ (List.mem_cons_of_mem _ ?_)
  exact List.mem_map_of_mem h

/-! ## The answer of a search -/

theorem firstFile_iff {isFile : Path → Bool} {paths : List Path} {path : Path} :
    FirstFile isFile paths path ↔ paths.find? isFile = some path := by
  rw [List.find?_eq_some_iff_append]
  constructor
  · rintro ⟨before, after, hpaths, hfile, hbefore⟩
    exact ⟨hfile, before, after, hpaths, fun q hq => by simp [hbefore q hq]⟩
  · rintro ⟨hfile, before, after, hpaths, hbefore⟩
    exact ⟨before, after, hpaths, hfile, fun q hq => by simpa using hbefore q hq⟩

/-- The search as one over the paths alone. -/
theorem locate_eq (isFile : Path → Bool) (s : ToolSettings) (file : SourceFile) :
    locate isFile s file =
      ((searchPaths s file).find? isFile).elim (.error .notFound)
        fun path => .ok ⟨s.interpreter, path⟩ := by
  rw [← map_path_candidates, List.find?_map, Function.comp_def]
  cases hfind : (candidates s file).find? fun c => isFile c.path with
  | some c => simp only [locate, hfind, Option.map_some, Option.elim]
  | none => simp only [locate, hfind, Option.map_none, Option.elim]

theorem locate_eq_ok_iff {isFile : Path → Bool} {s : ToolSettings} {file : SourceFile}
    {tool : LocalTool} :
    locate isFile s file = .ok tool ↔
      tool.interpreter = s.interpreter ∧ FirstFile isFile (searchPaths s file) tool.script := by
  rw [locate_eq, firstFile_iff]
  cases hfind : (searchPaths s file).find? isFile with
  | none => simp
  | some path =>
      obtain ⟨interpreter, script⟩ := tool
      simp [eq_comm]

theorem locate_eq_error_iff {isFile : Path → Bool} {s : ToolSettings} {file : SourceFile}
    {e : LocateError} :
    locate isFile s file = .error e ↔
      e = .notFound ∧ ∀ path ∈ searchPaths s file, isFile path = false := by
  have hnone : (∀ path ∈ searchPaths s file, isFile path = false) ↔
      (searchPaths s file).find? isFile = none := by
    simp [List.find?_eq_none]
  rw [locate_eq, hnone]
  cases hfind : (searchPaths s file).find? isFile with
  | none => simp [eq_comm]
  | some path => simp

/-- Searches that find the same first file for the same interpreter have the same answer. -/
theorem locate_congr {isFile isFile' : Path → Bool} {s s' : ToolSettings} {file : SourceFile}
    (hinterpreter : s'.interpreter = s.interpreter)
    (hfind : (searchPaths s' file).find? isFile' = (searchPaths s file).find? isFile) :
    locate isFile' s' file = locate isFile s file := by
  rw [locate_eq, locate_eq, hinterpreter, hfind]

/-! ## Changes to the folders -/

section Folders

variable {isFile : Path → Bool} {s : ToolSettings} {file : SourceFile}

/-- Once there is a file among the paths up to some folder, the folders after it do not count. -/
theorem locate_of_earlier {before : List Path}
    (h : ∃ path ∈ searchPaths (s.inFolders before) file, isFile path = true)
    (after : List Path) :
    locate isFile (s.inFolders (before ++ after)) file =
      locate isFile (s.inFolders before) file := by
  refine locate_congr rfl ?_
  obtain ⟨first, hfirst⟩ := Option.isSome_iff_exists.mp (List.find?_isSome.mpr h)
  rw [searchPaths_inFolders_append, List.find?_append, hfirst]
  rfl

/-- A folder whose script is no file can be left out. -/
theorem locate_of_not_isFile {folder : Path} (h : isFile (scriptIn folder) = false)
    (before after : List Path) :
    locate isFile (s.inFolders (before ++ folder :: after)) file =
      locate isFile (s.inFolders (before ++ after)) file := by
  refine locate_congr rfl ?_
  rw [searchPaths_inFolders_append, searchPaths_inFolders_append, List.map_cons, List.find?_append,
    List.find?_append, List.find?_cons_of_neg (by simp [h])]

/-- A folder that comes again can be left out there: either it was a file the first time, and then
the search is over, or it is none. -/
theorem locate_of_mem {before : List Path} {folder : Path} (h : folder ∈ before)
    (after : List Path) :
    locate isFile (s.inFolders (before ++ folder :: after)) file =
      locate isFile (s.inFolders (before ++ after)) file := by
  cases hfile : isFile (scriptIn folder) with
  | false => exact locate_of_not_isFile hfile before after
  | true =>
      have hearlier : ∃ path ∈ searchPaths (s.inFolders before) file, isFile path = true :=
        ⟨scriptIn folder, scriptIn_mem_searchPaths (s := s.inFolders before) h file, hfile⟩
      rw [locate_of_earlier hearlier, locate_of_earlier hearlier]

end Folders

/-- For all settings, every source file and every file system: the tool is at the first file among
the configured path if there is one, the script beside the source file and the script of each
workspace folder in order, and it is not found exactly when none of them is a file.  So more folders
at the end change nothing where a tool was found; a folder can be left out if a path before it is
a file or its own script is none; and a folder may come again anywhere after itself.  Two file
systems that agree on these paths give the same answer. -/
theorem locate_first_file (isFile : Path → Bool) (s : ToolSettings) (file : SourceFile) :
    (∀ tool, locate isFile s file = .ok tool ↔
      tool.interpreter = s.interpreter ∧ FirstFile isFile (searchPaths s file) tool.script) ∧
    (∀ e, locate isFile s file = .error e ↔
      e = .notFound ∧ ∀ path ∈ searchPaths s file, isFile path = false) ∧
    (∀ tool more, locate isFile s file = .ok tool →
      locate isFile (s.inFolders (s.workspaceFolders ++ more)) file = .ok tool) ∧
    (∀ before folder after, s.workspaceFolders = before ++ folder :: after →
      (∃ path ∈ searchPaths (s.inFolders before) file, isFile path = true) ∨
        isFile (scriptIn folder) = false →
      locate isFile (s.inFolders (before ++ after)) file = locate isFile s file) ∧
    (∀ before folder after, s.workspaceFolders = before ++ after → folder ∈ before →
      locate isFile (s.inFolders (before ++ folder :: after)) file = locate isFile s file) ∧
    ∀ isFile' : Path → Bool, (∀ path ∈ searchPaths s file, isFile' path = isFile path) →
      locate isFile' s file = locate isFile s file := by
  have hself : ∀ folders, s.workspaceFolders = folders → s = s.inFolders folders := by
    rintro folders rfl
    rfl
  refine ⟨fun _ => locate_eq_ok_iff, fun _ => locate_eq_error_iff, ?_, ?_, ?_, ?_⟩
  · intro tool more htool
    have hfirst := (locate_eq_ok_iff.mp htool).2
    have hearlier : ∃ path ∈ searchPaths (s.inFolders s.workspaceFolders) file,
        isFile path = true :=
      List.find?_isSome.mp (Option.isSome_of_eq_some (firstFile_iff.mp hfirst))
    rw [locate_of_earlier hearlier]
    exact htool
  · rintro before folder after hfolders (hearlier | hnone)
    · have hwhole := locate_of_earlier hearlier (folder :: after)
      rw [← hself _ hfolders] at hwhole
      rw [hwhole, locate_of_earlier hearlier]
    · rw [← locate_of_not_isFile hnone, ← hself _ hfolders]
  · intro before folder after hfolders hmem
    rw [locate_of_mem hmem, ← hself _ hfolders]
  · intro isFile' hagree
    exact locate_congr rfl (List.find?_congr hagree)

/-- The second and third of three folders hold the tool, and nothing is beside the file: the second
is taken, also without the first, without the third, and with the second listed once more. -/
theorem locate_first_file_folders :
    let file : SourceFile := ⟨.ofString "d/a.jatti", by decide +kernel⟩
    let u : Path := .ofString "u"
    let v : Path := .ofString "v"
    let w : Path := .ofString "w/"
    let s : ToolSettings := ⟨"", " ", [u, v, w]⟩
    let isFile : Path → Bool := fun path => path == scriptIn v || path == scriptIn w
    let tool : LocalTool := ⟨"python", .ofString "v/cli.py"⟩
    locate isFile s file = .ok tool ∧ locate isFile (s.inFolders [v, w]) file = .ok tool ∧
      locate isFile (s.inFolders [u, v]) file = .ok tool ∧
      locate isFile (s.inFolders [u, v, w, v]) file = .ok tool := by
  intro file u v w s isFile tool
  obtain ⟨hok, -, -, hwithout, hagain, -⟩ := locate_first_file isFile s file
  have htool : locate isFile s file = .ok tool :=
    (hok tool).mpr ⟨by decide +kernel, [scriptIn file.directory, scriptIn u], [scriptIn w],
      by decide +kernel, by decide +kernel, by decide +kernel⟩
  refine ⟨htool, ?_, ?_, ?_⟩
  · exact (hwithout [] u [v, w] rfl (.inr (by decide +kernel))).trans htool
  · have hearlier : ∃ path ∈ searchPaths (s.inFolders [u, v]) file, isFile path = true :=
      ⟨scriptIn v, by decide +kernel, by decide +kernel⟩
    exact (hwithout [u, v] w [] rfl (.inl hearlier)).trans htool
  · exact (hagain [u, v, w] v [] rfl (by decide +kernel)).trans htool

end Relay

import Relay.Credential.Store
import Relay.Proofs.Files.Parent
import Relay.Proofs.Files.Walk

/-!
# Writing a file and reading it back

A path takes a file when it leads to a regular file or to a free name in a directory.  Writing to
such a path succeeds, and the path then leads to a regular file that holds what was written
(`Disk.TakesFile.write`); the directory that the path stands in is there, so making it again
changes nothing (`withDirectory_of_walk`).
-/

namespace Relay.Files

/-- Whoever can follow a path finds its parent to be a directory. -/
theorem Tree.walk_parent {t : Tree} {follow : Bool} {cwd : Location} {p dir : Path} {place : Place}
    (h : t.walk follow cwd p = .ok place) (hdir : p.parent? = some dir) (hne : dir.bytes ≠ []) :
    (∃ l, t.walk true cwd dir = .ok (.found l .directory)) ∧
      ∃ l e, t.walk false cwd dir = .ok (.found l e) := by
  obtain ⟨⟨hzero, hempty, hlong⟩, hwalk⟩ := walk_eq_ok_iff.mp h
  obtain ⟨⟨tail, hbytes⟩, y, ys, hsteps⟩ := exists_steps_of_parent hdir hne
  have hvalid : 0 ∉ dir.bytes ∧ dir.bytes ≠ [] ∧ dir.bytes.length ≤ pathLimit := by
    refine ⟨fun hmem => hzero (hbytes ▸ List.mem_append_left _ hmem), hne, ?_⟩
    rw [hbytes, List.length_append] at hlong
    omega
  have habsolute : dir.isAbsolute = p.isAbsolute := by
    obtain ⟨b, bs, hdirbytes⟩ := List.exists_cons_of_ne_nil hne
    rw [Path.isAbsolute, Path.isAbsolute, hbytes, hdirbytes]
    rfl
  rw [hsteps, ← habsolute] at hwalk
  obtain ⟨l, hl⟩ := hwalk.split
  refine ⟨⟨l, walk_eq_ok_iff.mpr ⟨hvalid, hl _⟩⟩, ?_⟩
  obtain ⟨l', e, hl'⟩ := (hl (asksDirectory dir.bytes)).unfollowed
  exact ⟨l', e, walk_eq_ok_iff.mpr ⟨hvalid, hl'⟩⟩

namespace Disk

/-- The longest of the paths that a path goes through is the path itself. -/
theorem ancestors_cases (fuel : Nat) (p : Path) :
    ancestors fuel p = [] ∨ ∃ rest, ancestors fuel p = p :: rest := by
  rw [ancestors.eq_def]
  split
  · exact .inl rfl
  · exact .inr ⟨[], rfl⟩
  · split
    · exact .inl rfl
    · exact .inr ⟨_, rfl⟩

/-- Making a directory that is there changes nothing. -/
theorem makeDirectories_of_found {d : Disk} {dir : Path}
    (hdir : ∃ l, d.tree.walk true d.cwd dir = .ok (.found l .directory))
    (hfound : ∃ l e, d.tree.walk false d.cwd dir = .ok (.found l e)) :
    d.makeDirectories dir = .ok d := by
  obtain ⟨l, hl⟩ := hdir
  obtain ⟨l', e, hl'⟩ := hfound
  have hmake : d.makeDirectory dir = .error (.system .alreadyExists) := by
    simp only [makeDirectory, hl']
  have hisDirectory : d.isDirectory dir = true := by
    simp only [isDirectory, stat, hl]
  have hfirst : ∀ rest, d.makeFirst [] (dir :: rest) = .ok (d, []) := by
    intro rest
    simp [makeFirst, hmake, hisDirectory]
  rw [makeDirectories]
  obtain hnone | ⟨rest, hrest⟩ := ancestors_cases dir.bytes.length dir
  · rw [hnone]
    rfl
  · rw [hrest, hfirst]
    rfl

end Disk

/-- The directory of a path that can be followed is there. -/
theorem withDirectory_of_walk {d : Disk} {p : Path} {place : Place}
    (h : d.tree.walk true d.cwd p = .ok place) : FileStore.withDirectory p d = .ok d := by
  rw [FileStore.withDirectory]
  split
  · next dir hdir =>
    split
    · rfl
    · next hne =>
      obtain ⟨hfound, hunfollowed⟩ := d.tree.walk_parent h hdir hne
      exact Disk.makeDirectories_of_found hfound hunfollowed
  · rfl

namespace Disk

/-- The path leads to a regular file or to a free name in a directory. -/
def TakesFile (d : Disk) (p : Path) : Prop :=
  (∃ l content executable, d.tree.walk true d.cwd p = .ok (.found l (.file content executable))) ∨
    ∃ dir name, d.tree.walk true d.cwd p = .ok (.free dir name false)

/-- What is written to a path that takes a file is in the regular file that it leads to then. -/
theorem TakesFile.write {d : Disk} {p : Path} (h : d.TakesFile p) (content : Bytes) :
    ∃ d' l executable, d.write p content = .ok d' ∧
      d'.tree.walk true d'.cwd p = .ok (.found l (.file content executable)) := by
  rcases h with ⟨l, old, executable, hwalk⟩ | ⟨dir, name, hwalk⟩
  -- a file that is there stays executable if it was; a new one is not
  · obtain ⟨hvalid, hfound⟩ := Tree.walk_eq_ok_iff.mp hwalk
    have hold := hfound.get?_of_found
    have hrewritten := Rewritten.insert (Tree.ne_nil_of_get?_file hold) content executable
      fun e he => ⟨old, executable, Option.some.inj (he.symm.trans hold)⟩
    have hafter := hfound.rewritten hrewritten nofun
    rw [Place.rewritten, if_pos rfl] at hafter
    refine ⟨⟨d.tree.insert l (.file content executable), d.cwd⟩, l, executable, ?_, ?_⟩
    · simp only [Disk.write, hwalk]
    · exact Tree.walk_eq_ok_iff.mpr ⟨hvalid, hafter⟩
  · obtain ⟨hvalid, hfree⟩ := Tree.walk_eq_ok_iff.mp hwalk
    have hnone := hfree.get?_of_free
    have hrewritten := Rewritten.insert (show dir ++ [name] ≠ [] by simp) content false
      fun e he => by rw [hnone] at he; cases he
    have hafter := hfree.rewritten hrewritten (by simp)
    rw [Place.rewritten, if_pos rfl] at hafter
    refine ⟨⟨d.tree.insert (dir ++ [name]) (.file content false), d.cwd⟩, dir ++ [name], false,
      ?_, ?_⟩
    · simp only [Disk.write, hwalk]
    · exact Tree.walk_eq_ok_iff.mpr ⟨hvalid, hafter⟩

end Disk

end Relay.Files

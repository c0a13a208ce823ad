import Relay.Proofs.Path.Extension
import Relay.Proofs.Text.Cut
import Relay.Locate

/-!
# Source files and what is built from them

A path is accepted as a source file by its last step.  What is built from the file stands beside it,
under the name with the extension replaced (`builtNameOf`), and two files of a directory are built to
one name only if they have one name, but for `.jatti` and `.jatti.jatti`.

There is one exception.  The extension of `..jatti` is taken off before the new one is put on, and if
nothing follows the name in the path, then `..` is left, which is no name: the path that should have
been extended is the directory above (`SourceFile.LosesName`).
-/

namespace Relay

open Bytes (slash dot)
open Relay.Path (Ends up isVoid)

/-! ## The gate -/

theorem Path.namesSource_iff {p : Path} :
    p.namesSource = true ↔ ∃ s, p.fileName? = some (Utf8.encode (s ++ sourceSuffix)) := by
  unfold Path.namesSource
  cases p.fileName? with
  | none => simp
  | some name =>
      constructor
      · intro h
        cases htext : Utf8.decode? name with
        | none => simp [htext] at h
        | some text =>
            simp only [htext, List.isSuffixOf_iff_suffix] at h
            obtain ⟨s, hs⟩ := h
            refine ⟨.ofList s, congrArg some ?_⟩
            rw [Utf8.decode?_eq_some_iff.mp htext]
            congr 1
            apply String.toList_inj.mp
            rw [String.toList_append, String.toList_ofList, hs]
      · rintro ⟨s, hs⟩
        cases hs
        simp [Utf8.decode?_encode]

namespace SourceFile

theorem exists_ofPath_iff {p : Path} : (∃ f, ofPath p = .ok f) ↔ p.namesSource = true := by
  constructor
  · rintro ⟨f, hf⟩
    unfold ofPath at hf
    split at hf
    · next g hg => exact ofPath?_eq_some_iff.mp hg ▸ g.namesSource
    · cases hf
  · intro h
    have hp : ofPath? p = some ⟨p, h⟩ := ofPath?_eq_some_iff.mpr rfl
    exact ⟨⟨p, h⟩, by rw [ofPath, hp]⟩

/-- The name of what is built from the file `s.jatti`: `s.py`, and `.jatti.py` when `s` is empty, for
then the suffix is the whole name and no extension. -/
def builtNameOf (s : String) : String :=
  (if s = "" then sourceSuffix else s) ++ "." ++ builtExtension

/-- The path ends in the name `..jatti`: without its extension it ends in `..`, which is no name. -/
def LosesName (f : SourceFile) : Prop :=
  f.path.pieces.getLast? = some (Utf8.encode ("." ++ sourceSuffix))

instance (f : SourceFile) : Decidable f.LosesName :=
  inferInstanceAs (Decidable (f.path.pieces.getLast? = some (Utf8.encode ("." ++ sourceSuffix))))

/-! ## The parts of an accepted path -/

/-- The text of an accepted path around the name of its file. -/
theorem exists_ends (f : SourceFile) :
    ∃ s front tail, f.displayName = s ++ sourceSuffix ∧
      Ends f.path front (Utf8.encode (s ++ sourceSuffix)) tail := by
  obtain ⟨s, hs⟩ := Path.namesSource_iff.mp f.namesSource
  obtain ⟨-, before, after, hlast⟩ := Path.exists_lastPiece_of_fileName hs
  obtain ⟨front, tail, hends⟩ := Path.exists_ends hlast
  refine ⟨s, front, tail, ?_, hends⟩
  rw [displayName, hs]
  exact Utf8.decodeLossy_encode _

/-- An accepted path has the steps of its directory and the name of its file. -/
theorem components_eq (f : SourceFile) :
    f.path.components = f.directory.components ++ [.name (Utf8.encode f.displayName)] := by
  obtain ⟨s, hs⟩ := Path.namesSource_iff.mp f.namesSource
  obtain ⟨hup, before, after, hlast⟩ := Path.exists_lastPiece_of_fileName hs
  obtain ⟨dir, hdir, hsteps⟩ := Path.components_parent hlast
  have hname : f.displayName = s ++ sourceSuffix := by
    rw [displayName, hs]
    exact Utf8.decodeLossy_encode _
  rw [hsteps, directory, hdir, hname, Path.Component.ofPiece, if_neg hup]
  rfl

theorem encode_sourceName (s : String) :
    Utf8.encode (s ++ sourceSuffix) = Utf8.encode s ++ dot :: Utf8.encode "jatti" := by
  rw [Utf8.encode_append]
  rfl

theorem encode_eq_nil_iff {s : String} : Utf8.encode s = [] ↔ s = "" :=
  ⟨fun h => Utf8.encode_injective h, fun h => h ▸ rfl⟩

theorem encode_eq_dot_iff {s : String} : Utf8.encode s = [dot] ↔ s = "." :=
  ⟨fun h => Utf8.encode_injective h, fun h => h ▸ rfl⟩

theorem append_right_inj {s t u : String} : s ++ u = t ++ u ↔ s = t := by
  rw [← String.toList_inj, ← String.toList_inj, String.toList_append, String.toList_append]
  exact List.append_left_inj u.toList

section Cut

variable {f : SourceFile} {s : String} {front tail : Bytes}

theorem losesName_iff (h : Ends f.path front (Utf8.encode (s ++ sourceSuffix)) tail) :
    f.LosesName ↔ s = "." ∧ tail = [] := by
  have hvoid : isVoid (Utf8.encode ("." ++ sourceSuffix)) = false := by decide
  have hname : Utf8.encode (s ++ sourceSuffix) = Utf8.encode ("." ++ sourceSuffix) ↔ s = "." := by
    constructor
    · intro hencode
      exact append_right_inj.mp (Utf8.encode_injective hencode)
    · rintro rfl
      rfl
  rw [LosesName, h.getLast?_pieces_iff hvoid, hname]

/-- What is built stands where the file stands, under the name with the extension replaced. -/
theorem built_eq (h : Ends f.path front (Utf8.encode (s ++ sourceSuffix)) tail)
    (hkept : ¬ f.LosesName) : f.built = ⟨front ++ Utf8.encode (builtNameOf s)⟩ := by
  rw [losesName_iff h] at hkept
  have hdot : dot ∉ Utf8.encode "jatti" := by decide
  rw [encode_sourceName] at h
  by_cases hs : s = ""
  · subst hs
    have hname : Utf8.encode "" ++ dot :: Utf8.encode "jatti" = dot :: Utf8.encode "jatti" := rfl
    have hsplit := Path.splitName_dot_cons hdot
    rw [hname] at h
    have hup : dot :: Utf8.encode "jatti" ≠ up := by decide
    have hextension : f.path.extension? = none := by rw [h.extension? hup, hsplit]
    have hstem : Path.stem (dot :: Utf8.encode "jatti") = dot :: Utf8.encode "jatti" := by
      rw [Path.stem, hsplit]
    have hput := h.putExtension hup (hstem.symm.trans (List.append_nil _).symm)
      (Utf8.encode builtExtension)
    rw [built, Path.withExtension, hextension]
    rw [hstem, List.append_assoc] at hput
    exact hput
  · have hbuilt := h.withExtension_of_stem (mt encode_eq_nil_iff.mp hs) hdot (by decide)
      (fun hdots htail => hkept ⟨encode_eq_dot_iff.mp hdots, htail⟩) (Utf8.encode builtExtension)
    rw [built, hbuilt, builtNameOf, if_neg hs, Utf8.encode_append, Utf8.encode_append,
      List.append_assoc, List.append_assoc]
    rfl

theorem built_eq_of_losesName (h : Ends f.path front (Utf8.encode (s ++ sourceSuffix)) tail)
    (hloses : f.LosesName) : f.built = ⟨front ++ up⟩ := by
  obtain ⟨rfl, rfl⟩ := (losesName_iff h).mp hloses
  exact h.withExtension_of_up (by decide) (by decide) _

theorem length_encode_builtNameOf (s : String) :
    3 ≤ (Utf8.encode (builtNameOf s)).length := by
  rw [builtNameOf, String.append_assoc, Utf8.encode_append, List.length_append]
  exact Nat.le_add_left 3 _

theorem encode_builtNameOf_ne_up (s : String) : Utf8.encode (builtNameOf s) ≠ up := by
  intro h
  have hlength := length_encode_builtNameOf s
  rw [h] at hlength
  exact absurd hlength (by decide)

/-- The name of what is built can stand where the name of the file stands. -/
theorem ends_built (h : Ends f.path front (Utf8.encode (s ++ sourceSuffix)) tail) :
    Ends ⟨front ++ Utf8.encode (builtNameOf s)⟩ front (Utf8.encode (builtNameOf s)) [] := by
  refine ⟨(List.append_nil _).symm, h.boundary, ?_, ?_, .inl rfl⟩
  · have hplain := h.plain
    rw [Utf8.encode_append, List.mem_append, not_or] at hplain
    rw [builtNameOf, String.append_assoc, Utf8.encode_append, List.mem_append, not_or]
    refine ⟨?_, by decide⟩
    split
    · exact hplain.2
    · exact hplain.1
  · have hlength := length_encode_builtNameOf s
    cases hvoid : isVoid (Utf8.encode (builtNameOf s)) with
    | false => rfl
    | true =>
        rw [isVoid, Bool.or_eq_true, beq_iff_eq, beq_iff_eq] at hvoid
        rcases hvoid with hvoid | hvoid
        · rw [hvoid] at hlength
          exact absurd hlength (by decide)
        · rw [hvoid] at hlength
          exact absurd hlength (by decide)

theorem ends_up (h : Ends f.path front (Utf8.encode (s ++ sourceSuffix)) tail) :
    Ends ⟨front ++ up⟩ front up [] :=
  ⟨(List.append_nil _).symm, h.boundary, by decide, rfl, .inl rfl⟩

end Cut

/-! ## The names of what is built -/

theorem fileName?_built {f : SourceFile} {s : String} (h : f.displayName = s ++ sourceSuffix) :
    f.built.fileName? = if f.LosesName then none else some (Utf8.encode (builtNameOf s)) := by
  obtain ⟨t, front, tail, ht, hends⟩ := f.exists_ends
  obtain rfl := append_right_inj.mp (h.symm.trans ht)
  split
  · next hloses => rw [built_eq_of_losesName hends hloses, (ends_up hends).fileName?, if_pos rfl]
  · next hkept =>
    rw [built_eq hends hkept, (ends_built hends).fileName?, if_neg (encode_builtNameOf_ne_up s)]

theorem components_built {f : SourceFile} {s : String} (h : f.displayName = s ++ sourceSuffix) :
    f.built.components = f.directory.components ++
      [if f.LosesName then .up else .name (Utf8.encode (builtNameOf s))] := by
  obtain ⟨t, front, tail, ht, hends⟩ := f.exists_ends
  obtain rfl := append_right_inj.mp (h.symm.trans ht)
  -- the file and what is built from it have the same steps before their names
  have hdir : Path.components ⟨front⟩ = f.directory.components := by
    have hsteps := hends.components
    rw [f.components_eq] at hsteps
    exact (List.append_inj_left' hsteps rfl).symm
  split
  · next hloses =>
    rw [built_eq_of_losesName hends hloses, (ends_up hends).components, hdir]
    rfl
  · next hkept =>
    rw [built_eq hends hkept, (ends_built hends).components, hdir, Path.Component.ofPiece,
      if_neg (encode_builtNameOf_ne_up s)]

theorem builtName_eq {f : SourceFile} {s : String} (h : f.displayName = s ++ sourceSuffix) :
    f.builtName = if f.LosesName then "" else builtNameOf s := by
  have hname := fileName?_built h
  by_cases hloses : f.LosesName
  · rw [if_pos hloses] at hname ⊢
    rw [builtName, hname]
  · rw [if_neg hloses] at hname ⊢
    rw [builtName, hname]
    exact Utf8.decodeLossy_encode _

theorem builtNameOf_ne_empty (s : String) : builtNameOf s ≠ "" := by
  intro h
  have hlength := length_encode_builtNameOf s
  rw [h] at hlength
  exact absurd hlength (by decide)

/-- No name of what is built is that of a source file: its last letter is another. -/
theorem builtNameOf_ne (s t : String) : builtNameOf s ≠ t ++ sourceSuffix := by
  intro h
  have hlast := congrArg (fun text : String => text.toList.getLast?) h
  simp [builtNameOf, builtExtension, sourceSuffix] at hlast

/-- Two source files have one name for what is built from them only if they have one name, or if one
is the suffix alone and the other has the suffix twice. -/
theorem builtNameOf_inj {s t : String} :
    builtNameOf s = builtNameOf t ↔
      s = t ∨ (s = "" ∧ t = sourceSuffix) ∨ (s = sourceSuffix ∧ t = "") := by
  have hne : sourceSuffix ≠ "" := by decide
  rw [builtNameOf, builtNameOf, append_right_inj, append_right_inj]
  by_cases hs : s = ""
  · by_cases ht : t = ""
    · simp [hs, ht]
    · simp [hs, ht, Ne.symm ht, Ne.symm hne, eq_comm]
  · by_cases ht : t = ""
    · simp [hs, ht]
    · simp [hs, ht]

/-- What is built is no source file. -/
theorem not_namesSource_built (f : SourceFile) : ¬ f.built.namesSource = true := by
  rw [Path.namesSource_iff]
  rintro ⟨t, ht⟩
  obtain ⟨s, front, tail, hs, -⟩ := f.exists_ends
  rw [fileName?_built hs] at ht
  split at ht
  · cases ht
  · exact builtNameOf_ne s t (Utf8.encode_injective (Option.some.inj ht))

/-- Which files are built to one name. -/
theorem builtName_eq_iff (f g : SourceFile) :
    f.builtName = g.builtName ↔
      (f.LosesName ∧ g.LosesName) ∨
        (¬ f.LosesName ∧ ¬ g.LosesName ∧
          (f.displayName = g.displayName ∨
            (f.displayName = ".jatti" ∧ g.displayName = ".jatti.jatti") ∨
            (f.displayName = ".jatti.jatti" ∧ g.displayName = ".jatti"))) := by
  obtain ⟨s, -, -, hs, -⟩ := f.exists_ends
  obtain ⟨t, -, -, ht, -⟩ := g.exists_ends
  have hempty : ∀ u : String, u ++ sourceSuffix = ".jatti" ↔ u = "" := fun u =>
    append_right_inj (t := "")
  have htwice : ∀ u : String, u ++ sourceSuffix = ".jatti.jatti" ↔ u = sourceSuffix := fun u =>
    append_right_inj (t := sourceSuffix)
  rw [builtName_eq hs, builtName_eq ht, hs, ht, append_right_inj, hempty, hempty, htwice, htwice]
  by_cases hf : f.LosesName
  · by_cases hg : g.LosesName
    · simp [hf, hg]
    · simp [hf, hg, (builtNameOf_ne_empty t).symm]
  · by_cases hg : g.LosesName
    · simp [hf, hg, builtNameOf_ne_empty s]
    · simp only [hf, hg, if_false, not_false_eq_true, true_and, false_and, false_or]
      exact builtNameOf_inj

end SourceFile

/-- A path is accepted exactly when its last step is a name that is text and ends in the suffix.  An
accepted path has the steps of its directory and that name, and what is built from it has the steps
of the directory and the name with the extension replaced, unless it is the path that ends in
`..jatti`, for which it is the directory above.  What is built is never accepted.  Two files are built
to the same name, which is none for that path, exactly when both are such paths, or neither is and
their names are equal or are `.jatti` and `.jatti.jatti`. -/
theorem built_beside_source (p : Path) (f g : SourceFile) :
    ((∃ file, SourceFile.ofPath p = .ok file) ↔
      ∃ name s, p.components.getLast? = some (.name name) ∧
        Utf8.decode? name = some (s ++ sourceSuffix)) ∧
    (∃ s, f.displayName = s ++ sourceSuffix ∧
      f.path.components = f.directory.components ++ [.name (Utf8.encode (s ++ sourceSuffix))] ∧
      f.built.components = f.directory.components ++
        [if f.LosesName then .up else .name (Utf8.encode (SourceFile.builtNameOf s))] ∧
      ¬ ∃ file, SourceFile.ofPath f.built = .ok file) ∧
    (f.builtName = g.builtName ↔
      (f.LosesName ∧ g.LosesName) ∨
        (¬ f.LosesName ∧ ¬ g.LosesName ∧
          (f.displayName = g.displayName ∨
            (f.displayName = ".jatti" ∧ g.displayName = ".jatti.jatti") ∨
            (f.displayName = ".jatti.jatti" ∧ g.displayName = ".jatti")))) := by
  refine ⟨?_, ?_, SourceFile.builtName_eq_iff f g⟩
  · rw [SourceFile.exists_ofPath_iff, Path.namesSource_iff]
    constructor
    · rintro ⟨s, hs⟩
      exact ⟨_, s, Path.fileName?_eq_some_iff.mp hs, Utf8.decode?_encode _⟩
    · rintro ⟨name, s, hlast, htext⟩
      refine ⟨s, ?_⟩
      rw [← Utf8.decode?_eq_some_iff.mp htext]
      exact Path.fileName?_eq_some_iff.mpr hlast
  · obtain ⟨s, -, -, hs, -⟩ := f.exists_ends
    refine ⟨s, hs, hs ▸ f.components_eq, SourceFile.components_built hs, ?_⟩
    rw [SourceFile.exists_ofPath_iff]
    exact f.not_namesSource_built

/-- What is built from `..jatti` is not `..py` beside it but the directory above, and has no name,
while the same name with a slash after it is built to `..py`. -/
theorem built_not_beside_source :
    let f : SourceFile := ⟨.ofString "..jatti", by decide +kernel⟩
    let g : SourceFile := ⟨.ofString "..jatti/", by decide +kernel⟩
    f.displayName = "." ++ sourceSuffix ∧
      f.built.components ≠ f.directory.components ++ [.name (Utf8.encode "..py")] ∧
      f.directory = g.directory ∧ f.displayName = g.displayName ∧ f.builtName ≠ g.builtName := by
  decide +kernel

end Relay

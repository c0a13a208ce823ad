import Relay.Proofs.Files.Parent
import Relay.Proofs.Text.Utf8
import Relay.Settings.Environment

/-!
# Folders in a variable

A variable lists folders with colons between them.  `spaced` writes folders with any number of colons
more than are needed, and every text is written so (`exists_spaced`); reading a text so written gives
the folders (`splitFolders_spaced`).  `tidy` leaves out the colons that are not needed, each by what
stands beside it, and what it leaves is the folders with one colon between neighbours (`tidy_spaced`).
-/

namespace Relay.Settings

/-- A folder that a list can name. -/
def IsFolder (f : String) : Prop := f ≠ "" ∧ ':' ∉ f.toList

instance (f : String) : Decidable (IsFolder f) := inferInstanceAs (Decidable (_ ∧ _))

/-- Colons and nothing else. -/
def colons (n : Nat) : String := String.ofList (List.replicate n ':')

/-- Folders with colons between them: `front` colons before the first, and after each folder as many
more as are given with it. -/
def spaced (front : Nat) : List (String × Nat) → String
  | [] => colons front
  | (f, extra) :: rest =>
    colons front ++ f ++ (if rest.isEmpty then "" else ":") ++ spaced extra rest

/-- The characters without the colons that divide nothing: one stays where a folder was seen and the
next one begins. -/
def tidyFrom (seen : Bool) : List Char → List Char
  | [] => []
  | c :: cs =>
    if c = ':' then
      if seen && cs.head?.any (· != ':') then ':' :: tidyFrom true cs else tidyFrom seen cs
    else c :: tidyFrom true cs

/-- The text without superfluous colons. -/
def tidy (text : String) : String := String.ofList (tidyFrom false text.toList)

@[simp] theorem toList_colons (n : Nat) : (colons n).toList = List.replicate n ':' := by
  rw [colons, String.toList_ofList]

@[simp] theorem colons_zero : colons 0 = "" := rfl

theorem colons_succ (n : Nat) : colons (n + 1) = ":" ++ colons n := by
  apply String.toList_inj.mp
  simp [List.replicate_succ]

theorem spaced_cons (front : Nat) (f : String) (extra : Nat) (rest : List (String × Nat)) :
    spaced front ((f, extra) :: rest) =
      colons front ++ f ++ (if rest.isEmpty then "" else ":") ++ spaced extra rest := rfl

/-- Folders are joined by what is written between them when nothing more is. -/
theorem spaced_zero (fs : List String) : spaced 0 (fs.map (·, 0)) = ":".intercalate fs := by
  induction fs with
  | nil => rfl
  | cons f fs ih =>
      rw [List.map_cons, spaced_cons, ih, colons_zero, String.empty_append]
      cases fs with
      | nil => simp
      | cons g fs => simp

theorem spaced_last (f : String) (extra : Nat) : spaced 0 [(f, extra)] = f ++ colons extra := by
  simp [spaced]

theorem spaced_more (f : String) (extra : Nat) {rest : List (String × Nat)} (h : rest ≠ []) :
    spaced 0 ((f, extra) :: rest) = f ++ ":" ++ spaced extra rest := by
  rw [spaced_cons, List.isEmpty_eq_false_iff.mpr h, colons_zero, String.empty_append]
  rfl

/-! ## Every text lists folders -/

theorem colon_spaced (front : Nat) (fs : List (String × Nat)) :
    ":" ++ spaced front fs = spaced (front + 1) fs := by
  cases fs with
  | nil => exact (colons_succ front).symm
  | cons f fs => simp only [spaced, colons_succ, String.append_assoc]

theorem IsFolder.append {f g : String} (hf : IsFolder f) (hg : IsFolder g) : IsFolder (f ++ g) := by
  refine ⟨fun h => hf.1 (String.append_eq_empty_iff.mp h).1, ?_⟩
  rw [String.toList_append, List.mem_append, not_or]
  exact ⟨hf.2, hg.2⟩

/-- A folder in front either goes on to the first folder or is one more. -/
theorem exists_spaced_of_folder {g : String} (hg : IsFolder g) (front : Nat)
    {fs : List (String × Nat)} (hfs : ∀ f ∈ fs, IsFolder f.1) :
    ∃ fs', (∀ f ∈ fs', IsFolder f.1) ∧ g ++ spaced front fs = spaced 0 fs' := by
  cases fs with
  | nil => exact ⟨[(g, front)], by simpa using hg, (spaced_last g front).symm⟩
  | cons f fs =>
      cases front with
      | zero =>
          refine ⟨(g ++ f.1, f.2) :: fs, ?_, ?_⟩
          · intro x hx
            rcases List.mem_cons.mp hx with rfl | hx
            · exact hg.append (hfs f List.mem_cons_self)
            · exact hfs x (List.mem_cons_of_mem _ hx)
          · simp only [spaced, String.append_assoc]
            rfl
      | succ n =>
          refine ⟨(g, n) :: f :: fs, ?_, ?_⟩
          · intro x hx
            rcases List.mem_cons.mp hx with rfl | hx
            · exact hg
            · exact hfs x hx
          · rw [spaced_more g n (List.cons_ne_nil f fs), ← colon_spaced, String.append_assoc]

/-- A text is folders with colons around them, whatever it is. -/
theorem exists_spaced (text : String) :
    ∃ front fs, (∀ f ∈ fs, IsFolder f.1) ∧ text = spaced front fs := by
  have hchars : ∀ cs : List Char, ∃ front fs, (∀ f ∈ fs, IsFolder f.1) ∧
      String.ofList cs = spaced front fs := by
    intro cs
    induction cs with
    | nil => exact ⟨0, [], by simp, rfl⟩
    | cons c cs ih =>
        obtain ⟨front, fs, hfs, hcs⟩ := ih
        have hcons : String.ofList (c :: cs) = String.ofList [c] ++ spaced front fs := by
          rw [← hcs, ← String.ofList_append]
          rfl
        by_cases hc : c = ':'
        · subst hc
          exact ⟨front + 1, fs, hfs, hcons.trans (colon_spaced front fs)⟩
        · have hone : IsFolder (String.ofList [c]) := by simp [IsFolder, Ne.symm hc]
          obtain ⟨fs', hfs', hspaced⟩ := exists_spaced_of_folder hone front hfs
          exact ⟨0, fs', hfs', hcons.trans hspaced⟩
  obtain ⟨front, fs, hfs, htext⟩ := hchars text.toList
  exact ⟨front, fs, hfs, by rw [← htext, String.ofList_toList]⟩

/-! ## Reading the folders -/

theorem splitFolders_append_colon (a b : String) :
    splitFolders (a ++ ":" ++ b) = splitFolders a ++ splitFolders b := by
  have hcolon : Utf8.encode ":" = [Bytes.ascii ':'] := by decide
  rw [splitFolders, Utf8.encode_append, Utf8.encode_append, hcolon, List.append_assoc,
    List.singleton_append, Bytes.splitOn_append_sep, List.filter_append, List.map_append]
  rfl

theorem splitFolders_of_isFolder {f : String} (hf : IsFolder f) : splitFolders f = [.ofString f] := by
  have hcolon : Bytes.ascii ':' ∉ Utf8.encode f := by
    intro hmem
    obtain ⟨c, hc, hcode⟩ := Utf8.exists_mem_of_mem_encode hmem (by decide)
    have hchar : c = ':' := Char.toNat_inj.mp hcode
    exact hf.2 (hchar ▸ hc)
  have hne : Utf8.encode f ≠ [] := fun hnil => hf.1 (Utf8.encode_injective (t := "") hnil)
  rw [splitFolders, Bytes.splitOn_of_not_mem _ hcolon]
  simp [hne, Path.ofString]

theorem splitFolders_empty : splitFolders "" = [] := rfl

theorem splitFolders_front (front : Nat) (fs : List (String × Nat)) :
    splitFolders (spaced front fs) = splitFolders (spaced 0 fs) := by
  induction front with
  | zero => rfl
  | succ n ih =>
      have hsplit := splitFolders_append_colon "" (spaced n fs)
      rw [String.empty_append, colon_spaced, ih] at hsplit
      exact hsplit

/-- What is read is what was written, however many colons there are. -/
theorem splitFolders_spaced (front : Nat) {fs : List (String × Nat)} (h : ∀ f ∈ fs, IsFolder f.1) :
    splitFolders (spaced front fs) = fs.map fun f => Path.ofString f.1 := by
  induction fs generalizing front with
  | nil => rw [splitFolders_front]; rfl
  | cons f fs ih =>
      have hone := splitFolders_of_isFolder (h f List.mem_cons_self)
      have hrest := ih f.2 fun g hg => h g (List.mem_cons_of_mem _ hg)
      have hsplit : splitFolders (spaced 0 (f :: fs)) =
          splitFolders f.1 ++ splitFolders (spaced f.2 fs) := by
        by_cases hfs : fs = []
        · subst hfs
          obtain ⟨f, extra⟩ := f
          cases extra with
          | zero => simp [spaced, splitFolders_empty]
          | succ n =>
              rw [spaced_last, colons_succ, ← String.append_assoc, splitFolders_append_colon,
                splitFolders_front]
              exact congrArg _ (splitFolders_front n [])
        · rw [spaced_more f.1 f.2 hfs, splitFolders_append_colon]
      rw [splitFolders_front, hsplit, hone, hrest]
      rfl

/-! ## Superfluous colons -/

theorem tidyFrom_of_ne {c : Char} (h : c ≠ ':') (seen : Bool) (cs : List Char) :
    tidyFrom seen (c :: cs) = c :: tidyFrom true cs :=
  if_neg h

theorem tidyFrom_append {name : List Char} (h : ':' ∉ name) (cs : List Char) :
    tidyFrom true (name ++ cs) = name ++ tidyFrom true cs := by
  induction name with
  | nil => rfl
  | cons c name ih =>
      rw [List.mem_cons, not_or] at h
      rw [List.cons_append, tidyFrom_of_ne (Ne.symm h.1), ih h.2, List.cons_append]

/-- Whether a folder was seen does not matter where one begins. -/
theorem tidyFrom_folder {f : String} (hf : IsFolder f) (seen : Bool) (cs : List Char) :
    tidyFrom seen (f.toList ++ cs) = f.toList ++ tidyFrom true cs := by
  obtain ⟨c, name, hname⟩ := List.exists_cons_of_ne_nil (mt String.toList_eq_nil_iff.mp hf.1)
  have hfree := hf.2
  rw [hname, List.mem_cons, not_or] at hfree
  rw [hname, List.cons_append, tidyFrom_of_ne (Ne.symm hfree.1), tidyFrom_append hfree.2,
    List.cons_append]

theorem tidyFrom_colons (n : Nat) (seen : Bool) : tidyFrom seen (List.replicate n ':') = [] := by
  induction n with
  | zero => rfl
  | succ n ih =>
      have hnext : (List.replicate n ':').head?.any (· != ':') = false := by
        cases n <;> rfl
      rw [List.replicate_succ, tidyFrom, if_pos rfl, hnext, Bool.and_false, ih]
      rfl

theorem tidyFrom_front (front : Nat) (fs : List (String × Nat)) :
    tidyFrom false (spaced front fs).toList = tidyFrom false (spaced 0 fs).toList := by
  induction front with
  | zero => rfl
  | succ n ih =>
      rw [← colon_spaced, String.toList_append, ← ih]
      rfl

/-- Of the colons between two folders one stays. -/
theorem tidyFrom_between {f : String} (hf : IsFolder f) (front extra : Nat)
    (fs : List (String × Nat)) :
    tidyFrom true (':' :: (spaced front ((f, extra) :: fs)).toList) =
      ':' :: tidyFrom false (spaced front ((f, extra) :: fs)).toList := by
  induction front with
  | zero =>
      obtain ⟨c, name, hname⟩ := List.exists_cons_of_ne_nil (mt String.toList_eq_nil_iff.mp hf.1)
      have hc : c ≠ ':' := by
        rintro rfl
        exact hf.2 (hname ▸ List.mem_cons_self)
      have hstart : ∃ cs, (spaced 0 ((f, extra) :: fs)).toList = c :: cs := by
        simp [spaced_cons, hname]
      obtain ⟨cs, hcs⟩ := hstart
      rw [hcs, tidyFrom_of_ne hc]
      simp [tidyFrom, hc]
  | succ n ih =>
      -- the first of several colons is dropped on either side
      have hcolon : ":".toList = [':'] := rfl
      have hfirst (cs : List Char) : tidyFrom true (':' :: ':' :: cs) = tidyFrom true (':' :: cs) := by
        simp [tidyFrom]
      have hnone (cs : List Char) : tidyFrom false (':' :: cs) = tidyFrom false cs := by
        simp [tidyFrom]
      rw [← colon_spaced, String.toList_append, hcolon, List.singleton_append, hfirst, hnone, ih]

/-- What is left of a list with any number of colons is the list without them. -/
theorem tidy_spaced (front : Nat) {fs : List (String × Nat)} (h : ∀ f ∈ fs, IsFolder f.1) :
    tidy (spaced front fs) = ":".intercalate (fs.map Prod.fst) := by
  apply String.toList_inj.mp
  rw [tidy, String.toList_ofList]
  induction fs generalizing front with
  | nil => rw [spaced, toList_colons, tidyFrom_colons]; rfl
  | cons f fs ih =>
      have hf := h f List.mem_cons_self
      have hfs : ∀ g ∈ fs, IsFolder g.1 := fun g hg => h g (List.mem_cons_of_mem _ hg)
      rw [tidyFrom_front]
      cases fs with
      | nil =>
          rw [spaced_last, String.toList_append, tidyFrom_folder hf, toList_colons, tidyFrom_colons]
          simp
      | cons g fs =>
          have hjoin : ":".intercalate ((f :: g :: fs).map Prod.fst) =
              f.1 ++ (":" ++ ":".intercalate ((g :: fs).map Prod.fst)) := by
            rw [← String.append_assoc]
            exact String.intercalate_cons_cons
          rw [spaced_more f.1 f.2 (List.cons_ne_nil g fs), String.append_assoc, String.toList_append,
            tidyFrom_folder hf, hjoin, String.toList_append, String.toList_append,
            String.toList_append, ← ih f.2 hfs]
          exact congrArg _ (tidyFrom_between (hfs g List.mem_cons_self) f.2 g.2 fs)

/-! ## What the variable sets -/

theorem splitFolders_eq_nil_iff (text : String) :
    splitFolders text = [] ↔ ∀ c ∈ text.toList, c = ':' := by
  constructor
  · intro h
    obtain ⟨front, fs, hfs, rfl⟩ := exists_spaced text
    rw [splitFolders_spaced front hfs, List.map_eq_nil_iff] at h
    subst h
    intro c hc
    rw [spaced, toList_colons] at hc
    exact List.eq_of_mem_replicate hc
  · intro h
    have htext : text = spaced text.toList.length [] := by
      apply String.toList_inj.mp
      rw [spaced, toList_colons]
      exact List.eq_replicate_iff.mpr ⟨rfl, h⟩
    rw [htext]
    exact splitFolders_spaced _ (by simp)

theorem workspaceFolders_withDefaultWorkspace (s : Settings) (dir : Path) :
    (s.withDefaultWorkspace dir).tool.workspaceFolders =
      if s.tool.workspaceFolders = [] then [dir] else s.tool.workspaceFolders := by
  unfold withDefaultWorkspace
  split
  · rfl
  · rfl

/-- Folders joined by colons are set as they are, in order and with repetitions, and so they are with
any colons more.  Whatever the text, the folders it sets are not empty, have no colon in them, and are
the text without its superfluous colons when they are joined.  The default workspace afterwards takes
the place of no folders exactly if there is nothing but colons in the text. -/
theorem folders_from_variable {s : Settings} {lookup : String → Option String} {text : String}
    (h : lookup "JATTI_WORKSPACE" = some text) :
    let after := s.applyVariables lookup
    (∀ fs : List String, (∀ f ∈ fs, IsFolder f) → text = ":".intercalate fs →
      after.tool.workspaceFolders = fs.map Path.ofString) ∧
    (∀ front fs, (∀ f ∈ fs, IsFolder f.1) → text = spaced front fs →
      after.tool.workspaceFolders = fs.map fun f => Path.ofString f.1) ∧
    (∃ fs : List String, (∀ f ∈ fs, IsFolder f) ∧ after.tool.workspaceFolders = fs.map Path.ofString ∧
      ":".intercalate fs = tidy text) ∧
    ∀ dir, ((after.withDefaultWorkspace dir).tool.workspaceFolders ≠ after.tool.workspaceFolders ↔
        ∀ c ∈ text.toList, c = ':') ∧
      ((∀ c ∈ text.toList, c = ':') → (after.withDefaultWorkspace dir).tool.workspaceFolders = [dir]) := by
  intro after
  have hafter : after.tool.workspaceFolders = splitFolders text := by
    simp only [after, applyVariables, h, Option.map_some, Option.getD_some]
  rw [hafter]
  refine ⟨?_, ?_, ?_, ?_⟩
  · rintro fs hfs rfl
    have hmap : ∀ f ∈ fs.map (·, 0), IsFolder f.1 := by simpa using hfs
    rw [← spaced_zero, splitFolders_spaced 0 hmap, List.map_map]
    rfl
  · rintro front fs hfs rfl
    exact splitFolders_spaced front hfs
  · obtain ⟨front, fs, hfs, rfl⟩ := exists_spaced text
    refine ⟨fs.map Prod.fst, by simpa using hfs, ?_, (tidy_spaced front hfs).symm⟩
    rw [splitFolders_spaced front hfs, List.map_map]
    rfl
  · intro dir
    rw [workspaceFolders_withDefaultWorkspace, hafter, ← splitFolders_eq_nil_iff]
    constructor
    · by_cases hnil : splitFolders text = []
      · simp [hnil]
      · simp [hnil]
    · intro hnil
      rw [if_pos hnil]

/-- Two folders, one of them twice and with a space in it, among colons. -/
theorem folders_from_variable_repeated :
    let lookup : String → Option String := fun name =>
      if name = "JATTI_WORKSPACE" then some "::/a b:/c:::/a b:" else none
    lookup "JATTI_WORKSPACE" = some "::/a b:/c:::/a b:" ∧
      (Settings.default.applyVariables lookup).tool.workspaceFolders =
        ["/a b", "/c", "/a b"].map Path.ofString := by
  intro lookup
  have hlookup : lookup "JATTI_WORKSPACE" = some "::/a b:/c:::/a b:" := rfl
  have hfolders : ∀ f ∈ [("/a b", 0), ("/c", 2), ("/a b", 1)], IsFolder f.1 := by decide +kernel
  have htext : "::/a b:/c:::/a b:" = spaced 2 [("/a b", 0), ("/c", 2), ("/a b", 1)] := by
    decide +kernel
  obtain ⟨-, hspaced, -⟩ := folders_from_variable (s := .default) hlookup
  exact ⟨hlookup, hspaced 2 _ hfolders htext⟩

end Relay.Settings

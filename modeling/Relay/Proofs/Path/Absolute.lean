import Mathlib.Data.List.Basic
import Relay.Proofs.Path.Components

/-!
# Absolute paths

Making a path absolute keeps its steps: they are those of the path taken from the working directory
(`components_absolute`).  It leaves a text of a fixed form, names with one slash between neighbours after
one slash or exactly two (`Rooted`), closed by one more slash if the path was; and a text of that form is
left as it is (`absolute_absolute`).  So what was made absolute once means the same in every directory.
-/

namespace Relay.Path

open Bytes (slash dot splitOn joinWith)

/-! ## The steps of an absolute path -/

theorem components_foldl_join {names : List Bytes} (h : ∀ n ∈ names, IsName n)
    (base : Path) :
    (names.foldl (fun q name => q.join ⟨name⟩) base).components =
      base.components ++ names.map .ofPiece := by
  induction names generalizing base with
  | nil => simp
  | cons n names ih =>
      rw [List.foldl_cons, ih fun m hm => h m (List.mem_cons_of_mem _ hm),
        components_join_name base (h n List.mem_cons_self), List.append_assoc, List.map_cons]
      rfl

theorem isName_of_mem_names (p : Path) : ∀ n ∈ p.names, IsName n := by
  rw [names_eq]
  exact fun n => of_mem_named

/-- A path made absolute has the steps that it has from the working directory. -/
theorem components_absolute {p : Path} (hp : p.bytes ≠ []) (cwd : Path) :
    (p.absolute cwd).components = p.stepsFrom cwd := by
  -- a slash at the end is no step
  have hclosed : ∀ q : Path,
      (if p.bytes.getLast? = some slash then q.closed else q).components = q.components := by
    intro q
    split
    · exact components_closed q
    · rfl
  rw [absolute, if_neg hp]
  simp only [hclosed]
  rw [components_foldl_join p.isName_of_mem_names]
  by_cases habsolute : p.isAbsolute = true
  · obtain ⟨b, hb⟩ := (isAbsolute_iff p).mp habsolute
    have hroot : p.first = [.root] := by rw [eq_mk hb, first_slash_cons]
    rw [stepsFrom_of_isAbsolute habsolute, components_eq p, hroot, if_pos habsolute]
    split
    · rfl
    · rfl
  · rw [stepsFrom_of_not_isAbsolute habsolute, if_neg habsolute]

theorem isAbsolute_absolute {p cwd : Path} (hp : p.bytes ≠ []) (hcwd : cwd.isAbsolute = true) :
    (p.absolute cwd).isAbsolute = true := by
  rw [← root_mem_components_iff, components_absolute hp, stepsFrom]
  split
  · next h => exact (root_mem_components_iff p).mpr h
  · exact List.mem_append_left _ ((root_mem_components_iff cwd).mpr hcwd)

theorem ofPiece_mem_stepsFrom {p : Path} {n : Bytes} (hn : n ∈ p.names) (dir : Path) :
    .ofPiece n ∈ p.stepsFrom dir := by
  by_cases habsolute : p.isAbsolute = true
  · rw [stepsFrom_of_isAbsolute habsolute, components_eq]
    exact List.mem_append_right _ (List.mem_map_of_mem hn)
  · rw [stepsFrom_of_not_isAbsolute habsolute]
    exact List.mem_append_right _ (List.mem_map_of_mem hn)

/-- A path with a last piece, made absolute, stands in a directory: what remains of its steps. -/
theorem exists_parent_absolute {p : Path} (hp : p.names ≠ []) (cwd : Path) :
    ∃ dir piece, (p.absolute cwd).parent? = some dir ∧
      p.stepsFrom cwd = dir.components ++ [.ofPiece piece] := by
  have hsteps := components_absolute (bytes_of_names hp) cwd
  cases hlast : (p.absolute cwd).lastPiece? with
  | some last =>
      obtain ⟨piece, before, after⟩ := last
      obtain ⟨dir, hdir, hcomponents⟩ := components_parent hlast
      exact ⟨dir, piece, hdir, hsteps ▸ hcomponents⟩
  | none =>
      obtain ⟨n, hn⟩ := List.exists_mem_of_ne_nil _ hp
      have hmem : .ofPiece n ∈ (p.absolute cwd).components := hsteps ▸ ofPiece_mem_stepsFrom hn cwd
      exact absurd (lastPiece?_eq_none_iff.mp hlast)
        (names_of_mem_components hmem (ofPiece_ne_root n) (ofPiece_ne_here n))

/-! ## The text of an absolute path -/

/-- Names after one slash, or two. -/
structure Rooted where
  double : Bool
  names : List Bytes
  isName : ∀ n ∈ names, IsName n

namespace Rooted

/-- The slashes at the front. -/
def root (r : Rooted) : Bytes := if r.double then [slash, slash] else [slash]

/-- The names with one slash between neighbours, after the root. -/
def path (r : Rooted) : Path := ⟨r.root ++ joinWith slash r.names⟩

/-- More names at the end. -/
def add (r : Rooted) (more : List Bytes) (h : ∀ n ∈ more, IsName n) : Rooted where
  double := r.double
  names := r.names ++ more
  isName n hn := (List.mem_append.mp hn).elim (r.isName n) (h n)

@[simp] theorem root_add (r : Rooted) (more : List Bytes)
    (h : ∀ n ∈ more, IsName n) : (r.add more h).root = r.root := rfl

@[simp] theorem names_add (r : Rooted) (more : List Bytes)
    (h : ∀ n ∈ more, IsName n) : (r.add more h).names = r.names ++ more := rfl

theorem getLast?_root (r : Rooted) : r.root.getLast? = some slash := by
  unfold root
  split
  · rfl
  · rfl

/-- The text ends in a slash exactly when there are no names. -/
theorem getLast?_path (r : Rooted) : r.path.bytes.getLast? = some slash ↔ r.names = [] := by
  obtain ⟨double, names, hnames⟩ := r
  rcases List.eq_nil_or_concat' names with rfl | ⟨init, n, rfl⟩
  · simp [path, joinWith, getLast?_root]
  · have hn : IsName n := hnames n (List.mem_append_right _ List.mem_cons_self)
    have hlast := List.getLast?_eq_some_getLast hn.ne_nil
    -- the last octet is that of the last name, which has no slash
    have hjoin : (joinWith slash (init ++ [n])).getLast? = n.getLast? := by
      by_cases hinit : init = []
      · subst hinit
        rfl
      · rw [Bytes.joinWith_append slash hinit (List.cons_ne_nil n []), List.getLast?_append,
          List.getLast?_cons]
        simp [joinWith, hlast]
    have hne : n.getLast hn.ne_nil ≠ slash := by
      intro h
      exact hn.1 (h ▸ List.getLast_mem _)
    rw [path, List.getLast?_append, hjoin, hlast]
    simp [hne]

/-- No slash follows the root. -/
theorem head?_joinWith_names (r : Rooted) : (joinWith slash r.names).head? ≠ some slash := by
  obtain ⟨double, names, hnames⟩ := r
  cases names with
  | nil => simp [joinWith]
  | cons n names =>
      have hn := hnames n List.mem_cons_self
      obtain ⟨b, n, rfl⟩ := List.exists_cons_of_ne_nil hn.ne_nil
      have hb : b ≠ slash := fun h => hn.1 (h ▸ List.mem_cons_self)
      cases names with
      | nil => simpa [joinWith] using hb
      | cons m names => simpa [joinWith] using hb

theorem isAbsolute_append (r : Rooted) (b : Bytes) : isAbsolute ⟨r.root ++ b⟩ = true := by
  unfold root
  split
  · rfl
  · rfl

theorem startsWithTwoSlashes_append (r : Rooted) {b : Bytes} (hb : b.head? ≠ some slash) :
    startsWithTwoSlashes ⟨r.root ++ b⟩ = r.double := by
  obtain ⟨double, names, hnames⟩ := r
  cases b with
  | nil => cases double <;> rfl
  | cons c b =>
      have hc : c ≠ slash := by simpa using hb
      cases double
      · simp [root, startsWithTwoSlashes, hc]
      · simp [root, startsWithTwoSlashes, hc]

theorem named_joinWith_names (r : Rooted) : named (joinWith slash r.names) = r.names := by
  rw [named_joinWith fun n hn => (r.isName n hn).1, List.filter_eq_self]
  intro n hn
  simp [(r.isName n hn).2]

theorem names_append (r : Rooted) (b : Bytes) : (⟨r.root ++ b⟩ : Path).names = named b := by
  rw [names_eq, root]
  split
  · simp
  · simp

theorem path_ne_nil (r : Rooted) : r.path.bytes ≠ [] := by
  have := List.ne_nil_of_mem (List.mem_of_getLast? r.getLast?_root)
  simp [path, this]

/-- One more name goes after a slash, which the root has already. -/
theorem join_path (r : Rooted) {n : Bytes} (hn : ∀ m ∈ [n], IsName m) :
    r.path.join ⟨n⟩ = (r.add [n] hn).path := by
  rw [join, if_neg (hn n List.mem_cons_self).not_isAbsolute]
  by_cases hnames : r.names = []
  · rw [if_pos (.inr ((getLast?_path r).mpr hnames))]
    simp [path, hnames, joinWith]
  · rw [if_neg (by simp [r.path_ne_nil, getLast?_path, hnames])]
    have happend := Bytes.joinWith_append slash hnames (List.cons_ne_nil n [])
    simp [path, happend, joinWith]

theorem foldl_join_path (r : Rooted) {more : List Bytes}
    (h : ∀ n ∈ more, IsName n) :
    more.foldl (fun q name => q.join ⟨name⟩) r.path = (r.add more h).path := by
  induction more generalizing r with
  | nil => simp [path]
  | cons n more ih =>
      have hn : ∀ m ∈ [n], IsName m := by
        intro m hm
        obtain rfl := List.mem_singleton.mp hm
        exact h m List.mem_cons_self
      rw [List.foldl_cons, join_path r hn, ih _ fun m hm => h m (List.mem_cons_of_mem _ hm)]
      simp [path]

/-- The text with or without a slash at its end. -/
def text (r : Rooted) (close : Bool) : Path := if close then r.path.closed else r.path

/-- A slash at the end is already there when there are no names. -/
theorem exists_text (r : Rooted) (close : Bool) :
    ∃ b, r.text close = ⟨r.root ++ b⟩ ∧ b.head? ≠ some slash ∧ named b = r.names := by
  by_cases hopen : close = true ∧ r.names ≠ []
  · obtain ⟨rfl, hnames⟩ := hopen
    have hjoin : joinWith slash r.names ≠ [] := by
      intro h
      exact hnames (by rw [← r.named_joinWith_names, h, named_nil])
    refine ⟨joinWith slash r.names ++ [slash], ?_, ?_, ?_⟩
    · rw [text, if_pos rfl, closed, if_neg (by simp [r.path_ne_nil, getLast?_path, hnames]), path,
        List.append_assoc]
    · rw [List.head?_append_of_ne_nil _ hjoin]
      exact r.head?_joinWith_names
    · rw [named_append_slash, named_nil, List.append_nil, r.named_joinWith_names]
  · refine ⟨joinWith slash r.names, ?_, r.head?_joinWith_names, r.named_joinWith_names⟩
    rw [text]
    split
    · next hclose =>
        have hnames : r.names = [] := by simpa [hclose] using hopen
        rw [closed, if_pos (.inl ((getLast?_path r).mpr hnames))]
        rfl
    · rfl

/-- The text shows whether it is closed. -/
theorem text_getLast? (r : Rooted) (close : Bool) :
    r.text ((r.text close).bytes.getLast? == some slash) = r.text close := by
  cases close with
  | false =>
      by_cases hnames : r.path.bytes.getLast? = some slash
      · simp [text, closed, hnames]
      · simp [text, hnames]
  | true =>
      have hlast : (r.text true).bytes.getLast? = some slash := by
        rw [text, if_pos rfl, closed]
        split
        · next h => exact h.resolve_right r.path_ne_nil
        · simp
      rw [hlast]
      rfl

end Rooted

/-- A path that starts with the root of `r` and has its names becomes the text of `r`. -/
theorem absolute_of_rooted {p : Path} {r : Rooted} (habsolute : p.isAbsolute = true)
    (hdouble : p.startsWithTwoSlashes = r.double) (hnames : p.names = r.names) (dir : Path) :
    p.absolute dir = r.text (p.bytes.getLast? == some slash) := by
  have hp : p.bytes ≠ [] := by
    obtain ⟨b, hb⟩ := (isAbsolute_iff p).mp habsolute
    simp [hb]
  -- the names are joined one by one to the root, which is the form without names
  have hbase : (if p.startsWithTwoSlashes = true then (⟨[slash, slash]⟩ : Path) else ⟨[slash]⟩) =
      (⟨r.double, [], by simp⟩ : Rooted).path := by
    rw [hdouble]
    cases r.double <;> rfl
  rw [absolute, if_neg hp]
  simp only [if_pos habsolute, hbase, hnames, Rooted.foldl_join_path _ r.isName, Rooted.text, beq_iff_eq]
  rfl

/-- A text of the form is left as it is, from every directory. -/
theorem absolute_text (r : Rooted) (close : Bool) (dir : Path) :
    (r.text close).absolute dir = r.text close := by
  obtain ⟨b, htext, hb, hnames⟩ := r.exists_text close
  have habsolute : (r.text close).isAbsolute = true := htext ▸ r.isAbsolute_append b
  have hdouble : (r.text close).startsWithTwoSlashes = r.double :=
    htext ▸ r.startsWithTwoSlashes_append hb
  have hnames : (r.text close).names = r.names := by rw [htext, r.names_append, hnames]
  rw [absolute_of_rooted habsolute hdouble hnames, r.text_getLast?]

/-- An absolute directory as it is reported to a program: one slash, and names with one slash
between neighbours. -/
def Normal (dir : Path) : Prop := dir.bytes = slash :: joinWith slash dir.names

instance (dir : Path) : Decidable dir.Normal :=
  inferInstanceAs (Decidable (dir.bytes = slash :: joinWith slash dir.names))

theorem Normal.isAbsolute {dir : Path} (h : dir.Normal) : dir.isAbsolute = true :=
  (isAbsolute_iff dir).mpr ⟨_, h⟩

theorem Normal.exists_rooted {dir : Path} (h : dir.Normal) : ∃ r : Rooted, dir = r.path :=
  ⟨⟨false, dir.names, dir.isName_of_mem_names⟩, eq_mk h⟩

/-- What was made absolute from a normal directory is of the form. -/
theorem exists_rooted_absolute {p cwd : Path} (hp : p.bytes ≠ []) (hcwd : cwd.Normal) :
    ∃ (r : Rooted) (close : Bool), p.absolute cwd = r.text close := by
  by_cases habsolute : p.isAbsolute = true
  · exact ⟨⟨p.startsWithTwoSlashes, p.names, p.isName_of_mem_names⟩, _,
      absolute_of_rooted habsolute rfl rfl cwd⟩
  · obtain ⟨r, hr⟩ := hcwd.exists_rooted
    refine ⟨r.add p.names p.isName_of_mem_names, p.bytes.getLast? == some slash, ?_⟩
    rw [absolute, if_neg hp]
    simp only [if_neg habsolute, hr, Rooted.foldl_join_path _ p.isName_of_mem_names, Rooted.text, beq_iff_eq]

/-- A path made absolute from a normal directory is left as it is, from every directory. -/
theorem absolute_absolute {p cwd : Path} (hp : p.bytes ≠ []) (hcwd : cwd.Normal) (dir : Path) :
    (p.absolute cwd).absolute dir = p.absolute cwd := by
  obtain ⟨r, close, h⟩ := exists_rooted_absolute hp hcwd
  rw [h, absolute_text]

end Relay.Path

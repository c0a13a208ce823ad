import Mathlib.Data.List.TakeWhile
import Relay.Proofs.Files.Parent

/-!
# The steps of a path

The steps of a path are read off its text from the front, while its name and its parent are found
from the back.  Both come to the same: a path with a last piece has the steps of its parent and one
more (`components_parent`), and the path has a name exactly when its last step is one
(`fileName?_eq_some_iff`).

What joins these is that the names of a path are the pieces of its whole text that are not void,
wherever the lead ends (`names_eq`), so that a slash anywhere parts the steps before it from the
steps after it (`components_append_slash`).
-/

namespace Relay.Path

open Bytes (slash dot splitOn joinWith)

theorem eq_mk {p : Path} {bs : Bytes} (h : p.bytes = bs) : p = ⟨bs⟩ := by
  cases p
  cases h
  rfl

/-! ## The pieces that name something -/

/-- The pieces of a text that name something. -/
def named (bs : Bytes) : List Bytes := (splitOn slash bs).filter (!isVoid ·)

@[simp] theorem named_nil : named [] = [] := rfl

@[simp] theorem named_dot : named [dot] = [] := rfl

@[simp] theorem named_append_slash (a b : Bytes) : named (a ++ slash :: b) = named a ++ named b := by
  simp [named, Bytes.splitOn_append_sep]

@[simp] theorem named_slash_cons (b : Bytes) : named (slash :: b) = named b :=
  named_append_slash [] b

/-- What a piece is that names something: it has no slash in it, and is not void. -/
def IsName (name : Bytes) : Prop := slash ∉ name ∧ isVoid name = false

theorem IsName.ne_nil {name : Bytes} (h : IsName name) : name ≠ [] := by
  rintro rfl
  cases h.2

theorem named_of_name {name : Bytes} (h : IsName name) : named name = [name] := by
  simp [named, Bytes.splitOn_of_not_mem slash h.1, h.2]

theorem of_mem_named {bs name : Bytes} (h : name ∈ named bs) : IsName name := by
  obtain ⟨hmem, hname⟩ := List.mem_filter.mp h
  exact ⟨Bytes.not_mem_of_mem_splitOn slash hmem, by simpa using hname⟩

theorem named_joinWith {pieces : List Bytes} (h : ∀ piece ∈ pieces, slash ∉ piece) :
    named (joinWith slash pieces) = pieces.filter (!isVoid ·) := by
  by_cases hne : pieces = []
  · subst hne
    rfl
  · rw [named, Bytes.splitOn_joinWith slash hne h]

/-- A text names nothing exactly when it is made of slashes and of dots that stand alone. -/
theorem named_cons_eq_nil_iff (b : UInt8) (rest : Bytes) :
    named (b :: rest) = [] ↔
      named rest = [] ∧ (b = slash ∨ b = dot ∧ (rest = [] ∨ ∃ r, rest = slash :: r)) := by
  by_cases hb : b = slash
  · subst hb
    simp
  · cases rest with
    | nil =>
        by_cases hdot : b = dot
        · subst hdot
          simp
        · simp [named, splitOn, hb, isVoid, hdot]
    | cons c r =>
        by_cases hc : c = slash
        · subst hc
          have hsplit : named (b :: slash :: r) = named [b] ++ named r := named_append_slash [b] r
          by_cases hdot : b = dot
          · subst hdot
            simp [hsplit]
          · simp [named, splitOn, hb, isVoid, hdot]
        · obtain ⟨piece, pieces, hr⟩ := List.exists_cons_of_ne_nil (Bytes.splitOn_ne_nil slash r)
          simp [named, splitOn, hb, hc, hr, isVoid]

theorem named_eq_nil_of_append {a b : Bytes} (h : named (a ++ b) = []) : named a = [] := by
  induction a with
  | nil => rfl
  | cons x a ih =>
      rw [List.cons_append, named_cons_eq_nil_iff] at h
      obtain ⟨hrest, hx⟩ := h
      rw [named_cons_eq_nil_iff]
      refine ⟨ih hrest, hx.imp_right fun ⟨hdot, hnext⟩ => ⟨hdot, ?_⟩⟩
      cases a with
      | nil => exact .inl rfl
      | cons y a =>
          obtain ⟨r, hr⟩ := hnext.resolve_left (by simp)
          exact .inr ⟨a, by rw [List.head_eq_of_cons_eq hr]⟩

theorem eq_slash_or_dot_of_named {bs : Bytes} (h : named bs = []) {b : UInt8} (hb : b ∈ bs) :
    b = slash ∨ b = dot := by
  induction bs with
  | nil => exact absurd hb List.not_mem_nil
  | cons x bs ih =>
      obtain ⟨hrest, hx⟩ := (named_cons_eq_nil_iff x bs).mp h
      rcases List.mem_cons.mp hb with rfl | hb
      · exact hx.imp_right And.left
      · exact ih hrest hb

/-! ## The step before the names -/

/-- The step that the lead of a path is. -/
def first (p : Path) : List Component :=
  if p.lead = [slash] then [.root] else if p.lead = [dot] then [.here] else []

theorem components_eq (p : Path) : p.components = p.first ++ p.names.map .ofPiece := rfl

theorem eq_root_or_here_of_mem_first {p : Path} {c : Component} (h : c ∈ p.first) :
    c = .root ∨ c = .here := by
  unfold first at h
  split at h
  · exact .inl (List.mem_singleton.mp h)
  split at h
  · exact .inr (List.mem_singleton.mp h)
  · exact absurd h List.not_mem_nil

/-- A step that is neither the root nor `.` comes from a name. -/
theorem names_of_mem_components {p : Path} {c : Component} (h : c ∈ p.components) (hroot : c ≠ .root)
    (hhere : c ≠ .here) : p.names ≠ [] := by
  intro hnames
  rw [components_eq, hnames, List.map_nil, List.append_nil] at h
  exact (eq_root_or_here_of_mem_first h).elim hroot hhere

/-- The names of a path are the pieces of its whole text that name something. -/
theorem names_eq (p : Path) : p.names = named p.bytes := by
  obtain ⟨hbytes, hnone | hroot | ⟨hdot, hempty | ⟨r, hr⟩⟩⟩ := p.bytes_eq
  · rw [hbytes, hnone]
    rfl
  · rw [hbytes, hroot]
    exact (named_slash_cons p.body).symm
  · rw [hbytes, hdot, hempty, names, pieces, hempty]
    rfl
  · have hnames : p.names = named (slash :: r) := by rw [names, pieces, hr, named]
    rw [hnames, hbytes, hdot, hr]
    exact (named_append_slash [dot] r).symm

theorem names_of_components {p : Path} {front : List Component} {name : Bytes}
    (h : p.components = front ++ [.name name]) : p.names ≠ [] := by
  have hmem : .name name ∈ p.components := by
    rw [h]
    exact List.mem_append_right _ List.mem_cons_self
  exact names_of_mem_components hmem (by simp) (by simp)

theorem bytes_of_names {p : Path} (h : p.names ≠ []) : p.bytes ≠ [] := by
  intro hbytes
  rw [names_eq, hbytes] at h
  exact h rfl

theorem first_slash_cons (b : Bytes) : first ⟨slash :: b⟩ = [.root] := by
  simp [first, lead]

/-- The step before the names depends on the text up to the first slash. -/
theorem first_append_slash {a : Bytes} (ha : a ≠ []) (b : Bytes) :
    first ⟨a ++ slash :: b⟩ = first ⟨a⟩ := by
  obtain ⟨x, a, rfl⟩ := List.exists_cons_of_ne_nil ha
  cases a with
  | nil => simp [first, lead]
  | cons y a => simp [first, lead]

/-- A name at the front leaves no room for a lead. -/
theorem first_of_name {name : Bytes} (h : IsName name) : first ⟨name⟩ = [] := by
  obtain ⟨hplain, hname⟩ := h
  cases name with
  | nil => rfl
  | cons x name =>
      have hx : x ≠ slash := fun h => hplain (h ▸ List.mem_cons_self)
      cases name with
      | nil =>
          have hdot : x ≠ dot := by
            rintro rfl
            cases hname
          simp [first, lead, hx, hdot]
      | cons y name =>
          have hy : y ≠ slash := fun h => hplain (by simp [h])
          simp [first, lead, hx, hy]

/-! ## The steps of a text in parts -/

/-- A slash parts the steps before it from those after it. -/
theorem components_append_slash {a : Bytes} (ha : a ≠ []) (b : Bytes) :
    components ⟨a ++ slash :: b⟩ = components ⟨a⟩ ++ (named b).map .ofPiece := by
  rw [components_eq, components_eq, names_eq, names_eq, first_append_slash ha, named_append_slash,
    List.map_append, List.append_assoc]

theorem components_slash_cons (b : Bytes) :
    components ⟨slash :: b⟩ = .root :: (named b).map .ofPiece := by
  rw [components_eq, names_eq, first_slash_cons, named_slash_cons]
  rfl

theorem components_of_name {name : Bytes} (h : IsName name) :
    components ⟨name⟩ = [.ofPiece name] := by
  rw [components_eq, names_eq, first_of_name h, named_of_name h]
  rfl

/-- A slash at the end is no step. -/
theorem components_closed (p : Path) : p.closed.components = p.components := by
  unfold closed
  split
  · rfl
  · next h =>
    rw [components_append_slash (fun hnil => h (.inr hnil))]
    exact List.append_nil _

theorem ofPiece_ne_root (piece : Bytes) : Component.ofPiece piece ≠ .root := by
  unfold Component.ofPiece
  split <;> simp

theorem ofPiece_ne_here (piece : Bytes) : Component.ofPiece piece ≠ .here := by
  unfold Component.ofPiece
  split <;> simp

theorem isAbsolute_iff (p : Path) : p.isAbsolute = true ↔ ∃ b, p.bytes = slash :: b := by
  obtain ⟨bytes⟩ := p
  cases bytes with
  | nil => simp [isAbsolute]
  | cons x rest => simp [isAbsolute]

/-- A path is absolute exactly when the root is one of its steps. -/
theorem root_mem_components_iff (p : Path) : .root ∈ p.components ↔ p.isAbsolute = true := by
  have hnames : Component.root ∉ p.names.map Component.ofPiece := by
    rw [List.mem_map]
    rintro ⟨piece, -, h⟩
    exact ofPiece_ne_root piece h
  rw [components_eq, List.mem_append, or_iff_left hnames, isAbsolute_iff]
  constructor
  · intro h
    obtain ⟨hbytes, hnone | hroot | ⟨hdot, -⟩⟩ := p.bytes_eq
    · simp [first, hnone] at h
    · exact ⟨p.body, by rw [hbytes, hroot]; rfl⟩
    · rw [first, hdot] at h
      simp at h
      exact absurd h (by decide)
  · rintro ⟨b, hb⟩
    obtain rfl := eq_mk hb
    simp [first_slash_cons]

/-! ## Paths taken from a directory -/

/-- The steps of a path taken from a directory: those of the directory come first, unless the path
is absolute, and a `.` at its front is no step then. -/
def stepsFrom (p dir : Path) : List Component :=
  if p.isAbsolute then p.components else dir.components ++ p.components.filter (· ≠ .here)

theorem stepsFrom_of_isAbsolute {p : Path} (h : p.isAbsolute = true) (dir : Path) :
    p.stepsFrom dir = p.components :=
  if_pos h

theorem stepsFrom_of_not_isAbsolute {p : Path} (h : ¬ p.isAbsolute = true) (dir : Path) :
    p.stepsFrom dir = dir.components ++ p.names.map .ofPiece := by
  have hfirst : p.first.filter (· ≠ .here) = [] := by
    rw [List.filter_eq_nil_iff]
    intro c hc
    have hroot : c ≠ .root := by
      rintro rfl
      exact h ((root_mem_components_iff p).mp (List.mem_append_left _ hc))
    simpa using (eq_root_or_here_of_mem_first hc).resolve_left hroot
  have hnames : (p.names.map Component.ofPiece).filter (· ≠ .here) = p.names.map .ofPiece := by
    rw [List.filter_eq_self]
    intro c hc
    obtain ⟨piece, -, rfl⟩ := List.mem_map.mp hc
    simpa using ofPiece_ne_here piece
  rw [stepsFrom, if_neg h, components_eq p, List.filter_append, hfirst, hnames]
  rfl

/-- Joining is taking a path from a directory that is named. -/
theorem components_join {dir : Path} (hdir : dir.bytes ≠ []) (p : Path) :
    (dir.join p).components = p.stepsFrom dir := by
  unfold join
  split
  · next habsolute => rw [stepsFrom_of_isAbsolute habsolute]
  · next habsolute =>
    rw [stepsFrom_of_not_isAbsolute habsolute, names_eq]
    split
    · next hend =>
      obtain ⟨a, ha⟩ := List.getLast?_eq_some_iff.mp (hend.resolve_left hdir)
      obtain rfl := eq_mk ha
      -- the slash that is there already parts the two
      simp only [List.append_assoc, List.singleton_append]
      by_cases hempty : a = []
      · subst hempty
        simp [components_slash_cons]
      · rw [components_append_slash hempty, components_append_slash hempty]
        simp
    · exact components_append_slash hdir p.bytes

theorem join_nil (p : Path) : (⟨[]⟩ : Path).join p = p := by
  unfold join
  split
  · rfl
  · simp

/-- One more name at the end of a path is one more step wherever it is taken from. -/
theorem stepsFrom_snoc {p q : Path} {name : Bytes} (h : p.components = q.components ++ [.name name])
    (dir : Path) : p.stepsFrom dir = q.stepsFrom dir ++ [.name name] := by
  have habsolute : p.isAbsolute = q.isAbsolute := by
    rw [Bool.eq_iff_iff, ← root_mem_components_iff, ← root_mem_components_iff, h]
    simp
  rw [stepsFrom, stepsFrom, habsolute]
  split
  · exact h
  · rw [h, List.filter_append, List.append_assoc]
    simp

theorem IsName.not_isAbsolute {name : Bytes} (h : IsName name) : ¬ isAbsolute ⟨name⟩ = true := by
  rw [isAbsolute_iff]
  rintro ⟨b, hb⟩
  have hb : name = slash :: b := hb
  exact h.1 (hb ▸ List.mem_cons_self)

/-- A name taken from a directory is one more step. -/
theorem components_join_name (dir : Path) {name : Bytes} (h : IsName name) :
    (dir.join ⟨name⟩).components = dir.components ++ [.ofPiece name] := by
  by_cases hdir : dir.bytes = []
  · obtain rfl := eq_mk hdir
    rw [join_nil, components_of_name h]
    rfl
  · rw [components_join hdir, stepsFrom_of_not_isAbsolute h.not_isAbsolute, names_eq, named_of_name h]
    rfl

/-! ## The last piece -/

/-- The last piece that names something: only void pieces come after it. -/
theorem lastPiece?_eq_some_iff {p : Path} {piece : Bytes} {before after : List Bytes} :
    p.lastPiece? = some (piece, before, after) ↔
      p.pieces = before.reverse ++ piece :: after.reverse ∧ isVoid piece = false ∧
        ∀ q ∈ after, isVoid q = true := by
  have hreverse : p.pieces = before.reverse ++ piece :: after.reverse ↔
      p.pieces.reverse = after ++ piece :: before := by
    rw [← List.reverse_inj, List.reverse_append]
    simp
  rw [hreverse, lastPiece?]
  constructor
  · intro h
    split at h
    · cases h
    · next x rest hdrop =>
      cases h
      refine ⟨?_, ?_, fun q hq => List.mem_takeWhile_imp hq⟩
      · rw [← hdrop, List.takeWhile_append_dropWhile]
      · have hhead := List.head?_dropWhile_not isVoid p.pieces.reverse
        rw [hdrop] at hhead
        simpa using hhead
  · rintro ⟨hpieces, hpiece, hafter⟩
    rw [hpieces, List.dropWhile_append_of_pos hafter, List.takeWhile_append_of_pos hafter,
      List.dropWhile_cons_of_neg (by simp [hpiece]), List.takeWhile_cons_of_neg (by simp [hpiece]),
      List.append_nil]

theorem lastPiece?_eq_none_iff {p : Path} : p.lastPiece? = none ↔ p.names = [] := by
  rw [lastPiece?, names]
  have hnil : p.pieces.reverse.dropWhile isVoid = [] ↔ p.pieces.filter (!isVoid ·) = [] := by
    rw [List.dropWhile_eq_nil_iff, List.filter_eq_nil_iff]
    simp
  rw [← hnil]
  split
  · next h => simp [h]
  · next h => simp [h]

/-- The names of a path with a last piece end in it. -/
theorem names_of_lastPiece {p : Path} {piece : Bytes} {before after : List Bytes}
    (h : p.lastPiece? = some (piece, before, after)) :
    p.names = before.reverse.filter (!isVoid ·) ++ [piece] := by
  obtain ⟨hpieces, hpiece, hafter⟩ := lastPiece?_eq_some_iff.mp h
  have hvoid : after.reverse.filter (!isVoid ·) = [] := by
    rw [List.filter_eq_nil_iff]
    intro q hq
    simp [hafter q (List.mem_reverse.mp hq)]
  rw [names, hpieces, List.filter_append, List.filter_cons, hvoid, hpiece]
  rfl

/-- A path has a name exactly when its last step is one. -/
theorem fileName?_eq_some_iff {p : Path} {name : Bytes} :
    p.fileName? = some name ↔ p.components.getLast? = some (.name name) := by
  cases hlast : p.lastPiece? with
  | none =>
      have hnone : p.fileName? = none := by simp only [fileName?, hlast]
      rw [hnone, components_eq, lastPiece?_eq_none_iff.mp hlast, first]
      split
      · simp
      split
      · simp
      · simp
  | some found =>
      obtain ⟨piece, before, after⟩ := found
      have hsome : p.fileName? = if piece = up then none else some piece := by
        simp only [fileName?, hlast]
      rw [hsome, components_eq, names_of_lastPiece hlast, List.map_append, ← List.append_assoc]
      simp only [List.map_cons, List.map_nil, List.getLast?_concat, Option.some.injEq]
      unfold Component.ofPiece
      split
      · simp
      · simp

theorem exists_lastPiece_of_fileName {p : Path} {name : Bytes} (h : p.fileName? = some name) :
    name ≠ up ∧ ∃ before after, p.lastPiece? = some (name, before, after) := by
  unfold fileName? at h
  split at h
  · next piece before after hlast =>
    split at h
    · cases h
    · next hup =>
      cases h
      exact ⟨hup, before, after, hlast⟩
  · cases h

/-! ## The parent -/

/-- The pieces of a path in two: the steps of the first part, with the lead, come before those of the
second. -/
theorem components_of_pieces {p : Path} {kept tail : List Bytes} (hpieces : p.pieces = kept ++ tail)
    (htail : tail ≠ []) (hkept : kept = [] ∨ ∃ q ∈ kept, isVoid q = false) :
    p.components = components ⟨p.lead ++ joinWith slash kept⟩ ++
      (tail.filter (!isVoid ·)).map .ofPiece := by
  have hplain : ∀ q ∈ kept ++ tail, slash ∉ q := fun q hq =>
    Bytes.not_mem_of_mem_splitOn slash (hpieces ▸ hq)
  have hnamed : named (joinWith slash tail) = tail.filter (!isVoid ·) :=
    named_joinWith fun q hq => hplain q (List.mem_append_right _ hq)
  have hbody : p.body = joinWith slash (kept ++ tail) := by
    rw [← hpieces]
    exact (Bytes.joinWith_splitOn slash p.body).symm
  obtain ⟨hbytes, hlead⟩ := p.bytes_eq
  have hwhole : p.components = components ⟨p.lead ++ p.body⟩ := congrArg components (eq_mk hbytes)
  rw [← hnamed]
  by_cases hempty : kept = []
  · subst hempty
    rw [List.nil_append] at hbody
    rw [← hbody]
    have hdir : p.lead ++ joinWith slash [] = p.lead := List.append_nil _
    rw [hdir]
    obtain hnone | hroot | ⟨hdot, hend | ⟨r, hr⟩⟩ := hlead
    · rw [components_eq, names_eq, hbytes, hnone, first, hnone]
      rfl
    · rw [hwhole, hroot]
      exact components_slash_cons p.body
    · rw [hwhole, hend, List.append_nil]
      exact (List.append_nil _).symm
    · rw [hwhole, hdot, hr, named_slash_cons]
      exact components_append_slash (List.cons_ne_nil dot []) r
  · have hne : p.lead ++ joinWith slash kept ≠ [] := by
      intro hnil
      obtain ⟨q, hq, hname⟩ := hkept.resolve_left hempty
      have hmem : q ∈ named (joinWith slash kept) := by
        rw [named_joinWith fun q hq => hplain q (List.mem_append_left _ hq)]
        exact List.mem_filter.mpr ⟨hq, by simpa using hname⟩
      rw [(List.append_eq_nil_iff.mp hnil).2] at hmem
      exact absurd hmem List.not_mem_nil
    rw [← components_append_slash hne, List.append_assoc, ← Bytes.joinWith_append slash hempty htail,
      ← hbody, hwhole]

/-- A path with a last piece has a parent, and that piece is its one step more. -/
theorem components_parent {p : Path} {piece : Bytes} {before after : List Bytes}
    (h : p.lastPiece? = some (piece, before, after)) :
    ∃ dir, p.parent? = some dir ∧ p.components = dir.components ++ [.ofPiece piece] := by
  refine ⟨⟨p.lead ++ joinWith slash (before.dropWhile isVoid).reverse⟩, by rw [parent?, h], ?_⟩
  obtain ⟨hpieces, hpiece, hafter⟩ := lastPiece?_eq_some_iff.mp h
  -- void pieces before the last one go with it
  have hsplit : p.pieces = (before.dropWhile isVoid).reverse ++
      ((before.takeWhile isVoid).reverse ++ piece :: after.reverse) := by
    rw [hpieces, ← List.append_assoc, ← List.reverse_append, List.takeWhile_append_dropWhile]
  have hkept : (before.dropWhile isVoid).reverse = [] ∨
      ∃ q ∈ (before.dropWhile isVoid).reverse, isVoid q = false := by
    cases hdrop : before.dropWhile isVoid with
    | nil => exact .inl rfl
    | cons b rest =>
        have hhead := List.head?_dropWhile_not isVoid before
        rw [hdrop] at hhead
        exact .inr ⟨b, by simp, by simpa using hhead⟩
  have hvoid : (before.takeWhile isVoid).reverse.filter (!isVoid ·) = [] := by
    rw [List.filter_eq_nil_iff]
    intro q hq
    simp [List.mem_takeWhile_imp (List.mem_reverse.mp hq)]
  have hvoid' : after.reverse.filter (!isVoid ·) = [] := by
    rw [List.filter_eq_nil_iff]
    intro q hq
    simp [hafter q (List.mem_reverse.mp hq)]
  rw [components_of_pieces hsplit (by simp) hkept, List.filter_append, List.filter_cons, hvoid, hvoid',
    hpiece]
  rfl

end Relay.Path

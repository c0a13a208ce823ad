import Relay.Files.Tree

/-!
# The way to a parent

A path and its parent start alike: the parent's octets are the first of the path's, and the path's
steps are the parent's and at least one more (`exists_steps_of_parent`).  So whoever follows the
path comes through its parent.
-/

namespace Relay

/-! ## Splitting and joining -/

namespace Bytes

variable (sep : UInt8)

theorem splitOn_cons_sep (bs : Bytes) : splitOn sep (sep :: bs) = [] :: splitOn sep bs := by
  simp [splitOn]

/-- A separator parts the pieces before it from those after it. -/
theorem splitOn_append_sep (a b : Bytes) :
    splitOn sep (a ++ sep :: b) = splitOn sep a ++ splitOn sep b := by
  induction a with
  | nil => rw [List.nil_append, splitOn_cons_sep]; rfl
  | cons x a ih =>
      by_cases hx : x = sep
      · subst hx
        rw [List.cons_append, splitOn_cons_sep, splitOn_cons_sep, ih, List.cons_append]
      · obtain ⟨piece, pieces, ha⟩ := List.exists_cons_of_ne_nil (splitOn_ne_nil sep a)
        rw [ha] at ih
        simp [splitOn, hx, ih, ha]

theorem splitOn_of_not_mem {piece : Bytes} (h : sep ∉ piece) : splitOn sep piece = [piece] := by
  induction piece with
  | nil => rfl
  | cons x piece ih =>
      rw [List.mem_cons, not_or] at h
      simp [splitOn, Ne.symm h.1, ih h.2]

theorem not_mem_of_mem_splitOn {bs piece : Bytes} (h : piece ∈ splitOn sep bs) : sep ∉ piece := by
  induction bs generalizing piece with
  | nil =>
      obtain rfl : piece = [] := by simpa [splitOn] using h
      exact List.not_mem_nil
  | cons x bs ih =>
      by_cases hx : x = sep
      · subst hx
        rw [splitOn_cons_sep, List.mem_cons] at h
        rcases h with rfl | h
        · exact List.not_mem_nil
        · exact ih h
      · obtain ⟨first, pieces, hbs⟩ := List.exists_cons_of_ne_nil (splitOn_ne_nil sep bs)
        rw [hbs] at ih
        simp only [splitOn, if_neg hx, hbs, List.mem_cons] at h
        rcases h with rfl | h
        · rw [List.mem_cons, not_or]
          exact ⟨Ne.symm hx, ih List.mem_cons_self⟩
        · exact ih (List.mem_cons_of_mem _ h)

theorem joinWith_cons_cons (x y : Bytes) (ys : List Bytes) :
    joinWith sep (x :: y :: ys) = x ++ sep :: joinWith sep (y :: ys) := rfl

theorem joinWith_append {xs ys : List Bytes} (hxs : xs ≠ []) (hys : ys ≠ []) :
    joinWith sep (xs ++ ys) = joinWith sep xs ++ sep :: joinWith sep ys := by
  induction xs with
  | nil => exact absurd rfl hxs
  | cons x xs ih =>
      cases xs with
      | nil =>
          obtain ⟨y, ys, rfl⟩ := List.exists_cons_of_ne_nil hys
          rfl
      | cons x' xs =>
          have hrest := ih (by simp)
          rw [List.cons_append] at hrest
          rw [List.cons_append, List.cons_append, joinWith_cons_cons, hrest, joinWith_cons_cons,
            List.append_assoc, List.cons_append]

/-- Pieces without separators are what splitting what they are joined to gives. -/
theorem splitOn_joinWith {pieces : List Bytes} (hne : pieces ≠ [])
    (h : ∀ piece ∈ pieces, sep ∉ piece) : splitOn sep (joinWith sep pieces) = pieces := by
  induction pieces with
  | nil => exact absurd rfl hne
  | cons piece pieces ih =>
      have hpiece := splitOn_of_not_mem sep (h piece List.mem_cons_self)
      cases pieces with
      | nil => exact hpiece
      | cons next pieces =>
          rw [joinWith_cons_cons, splitOn_append_sep, hpiece,
            ih (by simp) fun p hp => h p (List.mem_cons_of_mem _ hp)]
          rfl

end Bytes

namespace Path

open Bytes (slash dot splitOn joinWith)

/-! ## The parts of a path -/

/-- What stands before the names is nothing, a slash, or a dot with nothing or a slash after it. -/
theorem bytes_eq (p : Path) :
    p.bytes = p.lead ++ p.body ∧
      (p.lead = [] ∨ p.lead = [slash] ∨
        (p.lead = [dot] ∧ (p.body = [] ∨ ∃ r, p.body = slash :: r))) := by
  obtain ⟨bytes⟩ := p
  cases bytes with
  | nil => simp [lead, body]
  | cons b rest =>
      by_cases hslash : b = slash
      · simp [lead, body, hslash]
      by_cases hdot : b = dot ∧ (rest.head? = none ∨ rest.head? = some slash)
      · obtain ⟨rfl, hrest⟩ := hdot
        have hlead : lead ⟨dot :: rest⟩ = [dot] := by
          simp only [lead]
          rw [if_neg hslash, if_pos ⟨trivial, hrest⟩]
        have hbody : body ⟨dot :: rest⟩ = rest := by simp [body, hlead]
        refine ⟨by rw [hlead, hbody]; rfl, .inr (.inr ⟨hlead, ?_⟩)⟩
        rw [hbody]
        cases rest with
        | nil => exact .inl rfl
        | cons c rest =>
            obtain rfl : c = slash := by simpa using hrest
            exact .inr ⟨rest, rfl⟩
      · have hlead : lead ⟨b :: rest⟩ = [] := by
          simp only [lead]
          rw [if_neg hslash, if_neg hdot]
        exact ⟨by simp [body, hlead], .inl hlead⟩

/-- The pieces of a path with a last name: those of its parent, and others with that name. -/
theorem pieces_of_lastPiece {p : Path} {piece : Bytes} {before after : List Bytes}
    (h : p.lastPiece? = some (piece, before, after)) :
    ∃ tail, p.pieces = (before.dropWhile isVoid).reverse ++ tail ∧ piece ∈ tail ∧ piece ≠ [] := by
  rw [lastPiece?] at h
  split at h
  · cases h
  · next name rest hdrop =>
    cases h
    have hname : isVoid piece = false := by
      have hhead := List.head?_dropWhile_not isVoid p.pieces.reverse
      rw [hdrop] at hhead
      simpa using hhead
    have hpieces : p.pieces = (p.pieces.reverse.takeWhile isVoid ++ piece :: before).reverse := by
      rw [← hdrop, List.takeWhile_append_dropWhile, List.reverse_reverse]
    have hbefore : before.reverse =
        (before.dropWhile isVoid).reverse ++ (before.takeWhile isVoid).reverse := by
      rw [← List.reverse_append, List.takeWhile_append_dropWhile]
    generalize p.pieces.reverse.takeWhile isVoid = void at hpieces
    refine ⟨(void ++ piece :: before.takeWhile isVoid).reverse, ?_, ?_, ?_⟩
    · rw [hpieces, List.reverse_append, List.reverse_cons, hbefore]
      simp
    · simp
    · rintro rfl
      cases hname

end Path

namespace Files

open Bytes (slash dot splitOn joinWith)

/-! ## The steps of a path -/

theorem steps_append_slash (a b : Bytes) : steps (a ++ slash :: b) = steps a ++ steps b := by
  simp [steps, Bytes.splitOn_append_sep]

theorem steps_slash_cons (b : Bytes) : steps (slash :: b) = steps b :=
  steps_append_slash [] b

/-- The steps of what pieces are joined to are the pieces that are not empty. -/
theorem steps_joinWith {pieces : List Bytes} (hne : pieces ≠ [])
    (h : ∀ piece ∈ pieces, slash ∉ piece) :
    steps (joinWith slash pieces) = pieces.filter (· ≠ []) := by
  rw [steps, Bytes.splitOn_joinWith slash hne h]

/-- What stands before the names is a step of its own, or none. -/
theorem steps_of_lead {p : Path} (hne : p.lead ≠ []) :
    steps p.bytes = steps p.lead ++ steps p.body := by
  obtain ⟨hbytes, hnone | hroot | ⟨hdot, hempty | ⟨r, hr⟩⟩⟩ := p.bytes_eq
  · exact absurd hnone hne
  · rw [hbytes, hroot]
    exact steps_slash_cons p.body
  · rw [hbytes, hempty, List.append_nil]
    exact (List.append_nil _).symm
  · rw [hbytes, hdot, hr, steps_slash_cons]
    exact steps_append_slash [dot] r

/-- Whoever follows a path takes the steps of its parent, and at least one more. -/
theorem exists_steps_of_parent {p dir : Path} (h : p.parent? = some dir) (hne : dir.bytes ≠ []) :
    (∃ tail, p.bytes = dir.bytes ++ tail) ∧
      ∃ y ys, steps p.bytes = steps dir.bytes ++ y :: ys := by
  rw [Path.parent?] at h
  split at h
  · next piece before after hlast =>
    cases h
    obtain ⟨tail, hpieces, hmem, hpiece⟩ := Path.pieces_of_lastPiece hlast
    have hbytes := p.bytes_eq.1
    generalize (before.dropWhile Path.isVoid).reverse = front at hpieces hne
    have hslash : ∀ piece ∈ p.pieces, slash ∉ piece :=
      fun piece hp => Bytes.not_mem_of_mem_splitOn slash hp
    have hbody : p.body = joinWith slash (front ++ tail) := by
      rw [← hpieces]
      exact (Bytes.joinWith_splitOn slash p.body).symm
    have htail : tail ≠ [] := List.ne_nil_of_mem hmem
    have hsteps : steps (joinWith slash tail) ≠ [] := by
      rw [steps_joinWith htail fun q hq => hslash q (hpieces ▸ List.mem_append_right _ hq)]
      exact List.ne_nil_of_mem (List.mem_filter.mpr ⟨hmem, by simpa using hpiece⟩)
    obtain ⟨y, ys, hys⟩ := List.exists_cons_of_ne_nil hsteps
    -- without names in front the parent is the lead alone, and no slash stands before the tail
    by_cases hfront : front = []
    · subst hfront
      rw [List.nil_append] at hbody
      have hdir : p.lead ++ joinWith slash [] = p.lead := List.append_nil _
      rw [hdir] at hne ⊢
      refine ⟨⟨_, hbytes⟩, y, ys, ?_⟩
      rw [steps_of_lead hne, hbody, hys]
    · have hsplit : p.bytes = (p.lead ++ joinWith slash front) ++ slash :: joinWith slash tail := by
        rw [hbytes, hbody, Bytes.joinWith_append slash hfront htail, List.append_assoc]
      refine ⟨⟨_, hsplit⟩, y, ys, ?_⟩
      rw [hsplit, steps_append_slash, hys]
  · split at h
    · cases h
      exact absurd rfl hne
    · cases h

end Files

end Relay

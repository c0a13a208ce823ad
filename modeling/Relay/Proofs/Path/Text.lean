import Relay.Proofs.Path.Components
import Relay.Proofs.Text.Cut

/-!
# Paths that are text

A path is a sequence of octets, and only some are the octets of a text.  A slash is never part of
another character, so the pieces of a text are texts (`isText_of_mem_splitOn`), and what is built
from texts is one: the path of a text, taken from a directory that is one, can be shown without
loss (`encode_display_absolute`).
-/

namespace Relay

namespace Utf8

/-- The octets are those of a text. -/
def IsText (bs : Bytes) : Prop := ∃ s : String, encode s = bs

instance (bs : Bytes) : Decidable (IsText bs) :=
  decidable_of_iff ((decode? bs).isSome = true) <| by
    rw [Option.isSome_iff_exists]
    exact exists_congr fun s => decode?_eq_some_iff.trans eq_comm

theorem IsText.append {a b : Bytes} (ha : IsText a) (hb : IsText b) : IsText (a ++ b) := by
  obtain ⟨s, rfl⟩ := ha
  obtain ⟨t, rfl⟩ := hb
  exact ⟨s ++ t, encode_append s t⟩

theorem encode_singleton (c : Char) : encode (String.singleton c) = String.utf8EncodeChar c := by
  simp [encode]

theorem isText_slash : IsText [Bytes.slash] := ⟨"/", rfl⟩

theorem IsText.encode_decodeLossy {bs : Bytes} (h : IsText bs) : encode (decodeLossy bs) = bs := by
  obtain ⟨s, rfl⟩ := h
  rw [decodeLossy_encode]

end Utf8

open Utf8 (IsText)

/-! ## Pieces -/

/-- What has no separator in it goes to the front of the first piece. -/
theorem Bytes.splitOn_append_of_not_mem {sep : UInt8} {a b piece : Bytes} {pieces : List Bytes}
    (ha : sep ∉ a) (hb : splitOn sep b = piece :: pieces) :
    splitOn sep (a ++ b) = (a ++ piece) :: pieces := by
  induction a with
  | nil => exact hb
  | cons x a ih =>
      rw [List.mem_cons, not_or] at ha
      simp [splitOn, Ne.symm ha.1, ih ha.2]

theorem slash_not_mem_encodeChar {c : Char} (h : c ≠ '/') :
    Bytes.slash ∉ String.utf8EncodeChar c := by
  intro hmem
  rw [← Utf8.encode_singleton] at hmem
  obtain ⟨d, hd, heq⟩ := Utf8.exists_mem_of_mem_encode hmem (by decide)
  obtain rfl : d = c := by simpa using hd
  exact h (Char.toNat_inj.mp heq)

theorem isText_of_mem_splitOn {bs piece : Bytes} (h : IsText bs)
    (hpiece : piece ∈ Bytes.splitOn Bytes.slash bs) : IsText piece := by
  obtain ⟨s, rfl⟩ := h
  rw [Utf8.encode] at hpiece
  generalize s.toList = cs at hpiece
  induction cs generalizing piece with
  | nil =>
      obtain rfl : piece = [] := by simpa [Bytes.splitOn] using hpiece
      exact ⟨"", rfl⟩
  | cons c cs ih =>
      rw [List.flatMap_cons] at hpiece
      by_cases hc : c = '/'
      · subst hc
        have hslash : String.utf8EncodeChar '/' = [Bytes.slash] := rfl
        rw [hslash, List.singleton_append, Bytes.splitOn_cons_sep, List.mem_cons] at hpiece
        rcases hpiece with rfl | hpiece
        · exact ⟨"", rfl⟩
        · exact ih hpiece
      · obtain ⟨first, pieces, hcs⟩ :=
          List.exists_cons_of_ne_nil (Bytes.splitOn_ne_nil Bytes.slash _)
        rw [Bytes.splitOn_append_of_not_mem (slash_not_mem_encodeChar hc) hcs,
          List.mem_cons] at hpiece
        rcases hpiece with rfl | hpiece
        · -- the character goes to the front of the first piece
          have hchar : IsText (String.utf8EncodeChar c) := ⟨_, Utf8.encode_singleton c⟩
          exact hchar.append (ih (hcs ▸ List.mem_cons_self))
        · exact ih (hcs ▸ List.mem_cons_of_mem _ hpiece)

/-! ## Paths -/

namespace Path

theorem isText_join {p q : Path} (hp : IsText p.bytes) (hq : IsText q.bytes) :
    IsText (p.join q).bytes := by
  unfold join
  split
  · exact hq
  split
  · exact hp.append hq
  · exact hp.append (Utf8.isText_slash.append hq)

theorem isText_foldl_join {names : List Bytes} (hnames : ∀ n ∈ names, IsText n) {p : Path}
    (hp : IsText p.bytes) : IsText (names.foldl (fun q name => q.join ⟨name⟩) p).bytes := by
  induction names generalizing p with
  | nil => exact hp
  | cons n names ih =>
      rw [List.forall_mem_cons] at hnames
      exact ih hnames.2 (isText_join hp hnames.1)

theorem isText_closed {p : Path} (hp : IsText p.bytes) : IsText p.closed.bytes := by
  unfold closed
  split
  · exact hp
  · exact hp.append Utf8.isText_slash

theorem isText_absolute {p cwd : Path} (hp : IsText p.bytes) (hcwd : IsText cwd.bytes) :
    IsText (p.absolute cwd).bytes := by
  have hnames : ∀ n ∈ p.names, IsText n := fun n hn =>
    isText_of_mem_splitOn hp (List.mem_filter.mp (p.names_eq ▸ hn)).1
  unfold absolute
  split
  · exact hp
  extract_lets base full
  have hbase : IsText base.bytes := by
    unfold base
    split
    · split
      · exact ⟨"//", rfl⟩
      · exact Utf8.isText_slash
    · exact hcwd
  have hfull : IsText full.bytes := isText_foldl_join hnames hbase
  split
  · exact isText_closed hfull
  · exact hfull

/-- A path that is text is shown without loss. -/
theorem encode_display_absolute {p cwd : Path} (hp : IsText p.bytes) (hcwd : IsText cwd.bytes) :
    Utf8.encode (p.absolute cwd).display = (p.absolute cwd).bytes :=
  (isText_absolute hp hcwd).encode_decodeLossy

end Path

end Relay

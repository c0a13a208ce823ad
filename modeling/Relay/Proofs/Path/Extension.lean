import Mathlib.Data.List.Basic
import Relay.Proofs.Path.Components

/-!
# The end of a path

`Ends` cuts the text of a path around its last name: what stands before the name is nothing or ends
in a slash, and only void pieces come after it.  Every path with a name can be cut so, and the cut
determines what is found from the back (`Ends.lastPiece?`), whatever the lead is.

Replacing an extension takes its octets off the end of the text, void pieces included, and puts the
new one after the stem of what is left.  As long as a name is left its stem is the old one
(`withExtension_of_stem`); `withExtension_of_up` is the one case in which none is.
-/

namespace Relay.Path

open Bytes (slash dot splitOn joinWith)

/-! ## The text around the last name -/

/-- The text of a path around its last name: `front` is nothing or ends in a slash, and `tail` is
nothing or void pieces after a slash. -/
structure Ends (p : Path) (front name tail : Bytes) : Prop where
  bytes : p.bytes = front ++ name ++ tail
  boundary : front = [] ∨ ∃ a, front = a ++ [slash]
  plain : slash ∉ name
  notVoid : isVoid name = false
  void : tail = [] ∨ ∃ rest, tail = slash :: rest ∧ named rest = []

/-- How many octets some pieces take, with a slash for each. -/
def room (pieces : List Bytes) : Nat := pieces.foldr (fun piece n => piece.length + 1 + n) 0

@[simp] theorem room_nil : room [] = 0 := rfl

@[simp] theorem room_cons (piece : Bytes) (pieces : List Bytes) :
    room (piece :: pieces) = piece.length + 1 + room pieces := rfl

theorem room_append (a b : List Bytes) : room (a ++ b) = room a + room b := by
  induction a with
  | nil => simp
  | cons piece a ih =>
      rw [List.cons_append, room_cons, room_cons, ih]
      omega

theorem room_reverse (pieces : List Bytes) : room pieces.reverse = room pieces := by
  induction pieces with
  | nil => rfl
  | cons piece pieces ih =>
      rw [List.reverse_cons, room_append, room_cons, room_cons, ih, room_nil]
      omega

/-- The pieces of a text take as much as the text, and one slash more. -/
theorem room_splitOn (bs : Bytes) : room (splitOn slash bs) = bs.length + 1 := by
  induction bs with
  | nil => rfl
  | cons b bs ih =>
      by_cases hb : b = slash
      · subst hb
        rw [Bytes.splitOn_cons_sep, room_cons, ih, List.length_nil, List.length_cons]
        omega
      · obtain ⟨piece, pieces, hbs⟩ := List.exists_cons_of_ne_nil (Bytes.splitOn_ne_nil slash bs)
        have hsplit : splitOn slash (b :: bs) = (b :: piece) :: pieces := by
          simp [splitOn, hb, hbs]
        rw [hbs, room_cons] at ih
        rw [hsplit, room_cons, List.length_cons, List.length_cons]
        omega

/-- After a `.` that leads it a path goes on with a slash, or ends. -/
theorem pieces_of_lead_dot {p : Path} (h : p.lead = [dot]) :
    ∃ rest, splitOn slash p.bytes = [dot] :: rest ∧ p.pieces = [] :: rest := by
  obtain ⟨hbytes, hnone | hroot | ⟨-, hempty | ⟨r, hr⟩⟩⟩ := p.bytes_eq
  · rw [h] at hnone
    cases hnone
  · rw [h] at hroot
    cases hroot
  · rw [pieces, hbytes, h, hempty]
    exact ⟨[], rfl, rfl⟩
  · rw [pieces, hbytes, h, hr, Bytes.splitOn_cons_sep]
    exact ⟨splitOn slash r, Bytes.splitOn_append_sep slash [dot] r, rfl⟩

/-- A piece of the whole text that names something is a piece after the lead. -/
theorem exists_pieces_of_splitOn {p : Path} {before after : List Bytes} {name : Bytes}
    (h : splitOn slash p.bytes = before ++ name :: after) (hname : isVoid name = false) :
    ∃ before', p.pieces = before' ++ name :: after := by
  obtain ⟨hbytes, hnone | hroot | ⟨hdot, -⟩⟩ := p.bytes_eq
  · refine ⟨before, ?_⟩
    rw [pieces, ← h, hbytes, hnone]
    rfl
  · rw [hbytes, hroot, List.singleton_append, Bytes.splitOn_cons_sep, ← pieces] at h
    cases before with
    | nil => cases List.head_eq_of_cons_eq h ▸ hname
    | cons x before => exact ⟨before, List.tail_eq_of_cons_eq h⟩
  · obtain ⟨rest, hwhole, hpieces⟩ := pieces_of_lead_dot hdot
    rw [h] at hwhole
    cases before with
    | nil => cases List.head_eq_of_cons_eq hwhole ▸ hname
    | cons x before =>
        refine ⟨[] :: before, ?_⟩
        rw [hpieces, ← List.tail_eq_of_cons_eq hwhole]
        rfl

namespace Ends

variable {p : Path} {front name tail : Bytes}

/-- The pieces from the last name on: the name, and void ones that take as much room as the tail. -/
theorem splitOn_name_tail (h : Ends p front name tail) :
    ∃ after, splitOn slash (name ++ tail) = name :: after ∧ (∀ q ∈ after, isVoid q = true) ∧
      room after = tail.length := by
  obtain rfl | ⟨rest, rfl, hrest⟩ := h.void
  · refine ⟨[], ?_, by simp, rfl⟩
    rw [List.append_nil, Bytes.splitOn_of_not_mem slash h.plain]
  · refine ⟨splitOn slash rest, ?_, fun q hq => ?_, room_splitOn rest⟩
    · rw [Bytes.splitOn_append_sep, Bytes.splitOn_of_not_mem slash h.plain]
      rfl
    · simpa using List.filter_eq_nil_iff.mp hrest q hq

/-- The pieces of a path up to its last name, and void ones that take as much room as the tail. -/
theorem exists_pieces (h : Ends p front name tail) :
    ∃ before after, p.pieces = before ++ name :: after ∧ (∀ q ∈ after, isVoid q = true) ∧
      room after = tail.length := by
  obtain ⟨after, hafter, hvoid, hroom⟩ := h.splitOn_name_tail
  have hsplit : ∃ before, splitOn slash p.bytes = before ++ name :: after := by
    rw [h.bytes, List.append_assoc]
    obtain rfl | ⟨a, rfl⟩ := h.boundary
    · exact ⟨[], hafter⟩
    · refine ⟨splitOn slash a, ?_⟩
      rw [List.append_assoc, List.singleton_append, Bytes.splitOn_append_sep, hafter]
  obtain ⟨before, hbefore⟩ := hsplit
  obtain ⟨before', hpieces⟩ := exists_pieces_of_splitOn hbefore h.notVoid
  exact ⟨before', after, hpieces, hvoid, hroom⟩

/-- The last name is found from the back, and so is the room that the tail takes. -/
theorem lastPiece? (h : Ends p front name tail) :
    ∃ before after, p.lastPiece? = some (name, before, after) ∧ p.tailLength = tail.length := by
  obtain ⟨before, after, hpieces, hvoid, hroom⟩ := h.exists_pieces
  have hlast : p.lastPiece? = some (name, before.reverse, after.reverse) := by
    rw [lastPiece?_eq_some_iff, List.reverse_reverse, List.reverse_reverse]
    exact ⟨hpieces, h.notVoid, fun q hq => hvoid q (List.mem_reverse.mp hq)⟩
  refine ⟨_, _, hlast, ?_⟩
  simp only [tailLength, hlast]
  exact (room_reverse after).trans hroom

/-- The text of a path ends in a piece that is not void exactly when that is its last name and
nothing comes after it. -/
theorem getLast?_pieces_iff (h : Ends p front name tail) {piece : Bytes}
    (hpiece : isVoid piece = false) :
    p.pieces.getLast? = some piece ↔ name = piece ∧ tail = [] := by
  obtain ⟨before, after, hpieces, hvoid, hroom⟩ := h.exists_pieces
  rcases List.eq_nil_or_concat' after with rfl | ⟨init, q, rfl⟩
  · have htail : tail = [] := List.length_eq_zero_iff.mp hroom.symm
    simp [hpieces, htail]
  · have hq : q ≠ piece := by
      rintro rfl
      rw [hvoid q (by simp)] at hpiece
      cases hpiece
    have hne : tail ≠ [] := by
      rintro rfl
      rw [room_append, room_cons, List.length_nil] at hroom
      omega
    rw [hpieces, ← List.cons_append, ← List.append_assoc, List.getLast?_concat]
    simp [hq, hne]

theorem fileName? (h : Ends p front name tail) :
    p.fileName? = if name = up then none else some name := by
  obtain ⟨before, after, hlast, -⟩ := h.lastPiece?
  rw [Path.fileName?, hlast]

/-- The steps of a path: those of what stands before its last name, and that name. -/
theorem components (h : Ends p front name tail) :
    p.components = Path.components ⟨front⟩ ++ [.ofPiece name] := by
  have hnamed : named (name ++ tail) = [name] := by
    obtain rfl | ⟨rest, rfl, hrest⟩ := h.void
    · rw [List.append_nil, named_of_name ⟨h.plain, h.notVoid⟩]
    · rw [named_append_slash, named_of_name ⟨h.plain, h.notVoid⟩, hrest]
      rfl
  rw [eq_mk h.bytes, List.append_assoc]
  obtain rfl | ⟨a, rfl⟩ := h.boundary
  · have hfirst : first ⟨name ++ tail⟩ = [] := by
      rw [← first_of_name ⟨h.plain, h.notVoid⟩]
      obtain rfl | ⟨rest, rfl, -⟩ := h.void
      · rw [List.append_nil]
      · refine first_append_slash ?_ rest
        rintro rfl
        cases h.notVoid
    rw [List.nil_append, components_eq, names_eq, hfirst, hnamed]
    rfl
  · rw [List.append_assoc, List.singleton_append]
    by_cases ha : a = []
    · subst ha
      simp only [List.nil_append]
      rw [components_slash_cons, components_slash_cons, hnamed]
      rfl
    · rw [components_append_slash ha, components_append_slash ha, hnamed]
      simp

end Ends

/-- Every path with a last piece can be cut around it. -/
theorem exists_ends {p : Path} {name : Bytes} {before after : List Bytes}
    (h : p.lastPiece? = some (name, before, after)) : ∃ front tail, Ends p front name tail := by
  obtain ⟨hpieces, hname, hafter⟩ := lastPiece?_eq_some_iff.mp h
  have hplain : ∀ q ∈ p.pieces, slash ∉ q := fun q hq => Bytes.not_mem_of_mem_splitOn slash hq
  have hbytes := p.bytes_eq.1
  rw [← Bytes.joinWith_splitOn slash p.body, ← pieces, hpieces] at hbytes
  rw [hpieces] at hplain
  have htail : ∃ tail, joinWith slash (name :: after.reverse) = name ++ tail ∧
      (tail = [] ∨ ∃ rest, tail = slash :: rest ∧ named rest = []) := by
    cases hreverse : after.reverse with
    | nil => exact ⟨[], (List.append_nil name).symm, .inl rfl⟩
    | cons q qs =>
        refine ⟨slash :: joinWith slash (q :: qs), rfl, .inr ⟨_, rfl, ?_⟩⟩
        rw [← hreverse, named_joinWith fun q hq => hplain q (by simp [List.mem_reverse.mp hq]),
          List.filter_eq_nil_iff]
        intro q hq
        simp [hafter q (List.mem_reverse.mp hq)]
  obtain ⟨tail, htail, hvoid⟩ := htail
  have hfront : ∃ front, p.bytes = front ++ (name ++ tail) ∧
      (front = [] ∨ ∃ a, front = a ++ [slash]) := by
    by_cases hbefore : before.reverse = []
    · rw [hbefore, List.nil_append] at hpieces
      rw [hbefore, List.nil_append, htail] at hbytes
      refine ⟨p.lead, hbytes, ?_⟩
      obtain hnone | hroot | ⟨hdot, -⟩ := p.bytes_eq.2
      · exact .inl hnone
      · exact .inr ⟨[], hroot⟩
      · -- the first piece after a `.` is empty, so it is not the name
        obtain ⟨rest, -, hrest⟩ := pieces_of_lead_dot hdot
        rw [hrest] at hpieces
        cases List.head_eq_of_cons_eq hpieces ▸ hname
    · refine ⟨p.lead ++ joinWith slash before.reverse ++ [slash], ?_, .inr ⟨_, rfl⟩⟩
      rw [hbytes, Bytes.joinWith_append slash hbefore (List.cons_ne_nil _ _), htail]
      simp
  obtain ⟨front, hfront, hboundary⟩ := hfront
  exact ⟨front, tail, by rw [hfront, List.append_assoc], hboundary, hplain name (by simp), hname,
    hvoid⟩

/-! ## Extensions -/

/-- A name with a dot in it, and something before that, is split at its last dot. -/
theorem splitName_append {stem ext : Bytes} (hstem : stem ≠ []) (hext : dot ∉ ext) :
    splitName (stem ++ dot :: ext) = (stem, some ext) := by
  have hreverse : (stem ++ dot :: ext).reverse = ext.reverse ++ dot :: stem.reverse := by simp
  have hall : ∀ b ∈ ext.reverse, decide (b ≠ dot) = true := by
    intro b hb
    have hne : b ≠ dot := fun h => hext (h ▸ List.mem_reverse.mp hb)
    simpa using hne
  rw [splitName]
  simp only [hreverse]
  rw [List.takeWhile_append_of_pos hall, List.dropWhile_append_of_pos hall]
  simp [hstem]

/-- A dot at the front of a name starts no extension. -/
theorem splitName_dot_cons {rest : Bytes} (hrest : dot ∉ rest) :
    splitName (dot :: rest) = (dot :: rest, none) := by
  have hreverse : (dot :: rest).reverse = rest.reverse ++ [dot] := by simp
  have hall : ∀ b ∈ rest.reverse, decide (b ≠ dot) = true := by
    intro b hb
    have hne : b ≠ dot := fun h => hrest (h ▸ List.mem_reverse.mp hb)
    simpa using hne
  rw [splitName]
  simp only [hreverse]
  rw [List.dropWhile_append_of_pos hall]
  simp

namespace Ends

variable {p : Path} {front name tail : Bytes}

theorem extension? (h : Ends p front name tail) (hup : name ≠ up) :
    p.extension? = (splitName name).2 := by
  rw [Path.extension?, h.fileName?, if_neg hup]
  rfl

/-- A new extension goes after the stem, and what stood after that goes. -/
theorem putExtension (h : Ends p front name tail) (hup : name ≠ up) {rest : Bytes}
    (hstem : name = stem name ++ rest) (ext : Bytes) :
    p.putExtension ext = ⟨front ++ stem name ++ dot :: ext⟩ := by
  obtain ⟨before, after, -, htail⟩ := h.lastPiece?
  have hname : p.fileName? = some name := by rw [h.fileName?, if_neg hup]
  have hstart : p.bytes.length - tail.length - name.length = front.length := by
    rw [h.bytes, List.length_append, List.length_append]
    omega
  have htake : p.bytes.take (front.length + (stem name).length) = front ++ stem name := by
    rw [h.bytes]
    generalize stem name = s at hstem
    rw [hstem]
    have hlength : front.length + s.length = (front ++ s).length := by simp
    rw [hlength, ← List.append_assoc, List.append_assoc (front ++ s), List.take_left]
  rw [Path.putExtension, hname]
  simp only [htail, hstart, htake]

/-- Octets taken off the end of a path, up to all that stands after its name, leave the name. -/
theorem take_tail (h : Ends p front name tail) (n : Nat) :
    Ends ⟨front ++ name ++ tail.take n⟩ front name (tail.take n) := by
  refine ⟨rfl, h.boundary, h.plain, h.notVoid, ?_⟩
  obtain rfl | ⟨rest, rfl, hrest⟩ := h.void
  · exact .inl List.take_nil
  · cases n with
    | zero => exact .inl rfl
    | succ n =>
        refine .inr ⟨rest.take n, rfl, ?_⟩
        rw [← List.take_append_drop n rest] at hrest
        exact named_eq_nil_of_append hrest

/-- Octets of an extension taken off the end of a path, but not all of it, leave a shorter one. -/
theorem take_extension {stem old : Bytes} (h : Ends p front (stem ++ dot :: old) tail)
    (hstem : stem ≠ []) (n : Nat) :
    Ends ⟨front ++ (stem ++ dot :: old.take n)⟩ front (stem ++ dot :: old.take n) [] := by
  refine ⟨(List.append_nil _).symm, h.boundary, fun hmem => h.plain ?_, ?_, .inl rfl⟩
  · have hprefix : stem ++ dot :: old.take n <+: stem ++ dot :: old :=
      (List.prefix_append_right_inj _).mpr ((List.prefix_cons_inj _).mpr (List.take_prefix n old))
    exact hprefix.subset hmem
  · obtain ⟨b, stem, rfl⟩ := List.exists_cons_of_ne_nil hstem
    cases stem with
    | nil => simp [isVoid]
    | cons c stem => simp [isVoid]

variable {stem old : Bytes}

theorem eq_up_iff (hstem : stem ≠ []) : stem ++ dot :: old = up ↔ stem = [dot] ∧ old = [] := by
  obtain ⟨b, stem, rfl⟩ := List.exists_cons_of_ne_nil hstem
  cases stem with
  | nil => simp [up]
  | cons c stem => simp [up]

/-- What is left of a path when the octets of its extension are taken off its end: the extension
only goes as far as there is nothing behind it. -/
theorem take_bytes (h : Ends p front (stem ++ dot :: old) tail) :
    p.bytes.take (p.bytes.length - old.length) =
      if old.length ≤ tail.length then
        front ++ (stem ++ dot :: old) ++ tail.take (tail.length - old.length)
      else front ++ (stem ++ dot :: old.take tail.length) := by
  rw [h.bytes]
  split
  · next hle =>
    generalize hwhole : front ++ (stem ++ dot :: old) = whole
    have hlength : (whole ++ tail).length - old.length =
        whole.length + (tail.length - old.length) := by
      rw [List.length_append]
      omega
    rw [hlength, List.take_length_add_append]
  · next hlt =>
    have hsplit : front ++ (stem ++ dot :: old) ++ tail =
        (front ++ stem ++ [dot]) ++ (old ++ tail) := by simp
    have hlength : ((front ++ stem ++ [dot]) ++ (old ++ tail)).length - old.length =
        (front ++ stem ++ [dot]).length + tail.length := by
      simp only [List.length_append]
      omega
    rw [hsplit, hlength, List.take_length_add_append, List.take_append_of_le_length (by omega)]
    simp

theorem withExtension_eq (h : Ends p front (stem ++ dot :: old) tail) (hstem : stem ≠ [])
    (hdot : dot ∉ old) (hold : old ≠ []) (ext : Bytes) :
    p.withExtension ext =
      Path.putExtension ⟨p.bytes.take (p.bytes.length - old.length)⟩ ext := by
  have hextension : p.extension? = some old := by
    rw [h.extension? fun hup => hold ((eq_up_iff hstem).mp hup).2, splitName_append hstem hdot]
  rw [withExtension, hextension]

/-- Replacing an extension keeps the stem as long as something other than `..` is left of the path
without it. -/
theorem withExtension_of_stem (h : Ends p front (stem ++ dot :: old) tail) (hstem : stem ≠ [])
    (hdot : dot ∉ old) (hold : old ≠ []) (hkept : stem = [dot] → tail ≠ []) (ext : Bytes) :
    p.withExtension ext = ⟨front ++ stem ++ dot :: ext⟩ := by
  rw [h.withExtension_eq hstem hdot hold, h.take_bytes]
  split
  · -- the octets came off the void pieces, and the name is whole
    have hwhole : Path.stem (stem ++ dot :: old) = stem := by
      rw [Path.stem, splitName_append hstem hdot]
    have hup : stem ++ dot :: old ≠ up := fun hup => hold ((eq_up_iff hstem).mp hup).2
    have hsplit : stem ++ dot :: old = Path.stem (stem ++ dot :: old) ++ dot :: old := by rw [hwhole]
    have hstays := h.take_tail (tail.length - old.length)
    rw [hstays.putExtension hup hsplit, hwhole]
  · have hcut : Path.stem (stem ++ dot :: old.take tail.length) = stem := by
      rw [Path.stem, splitName_append hstem fun hmem => hdot (List.mem_of_mem_take hmem)]
    have hsplit : stem ++ dot :: old.take tail.length =
        Path.stem (stem ++ dot :: old.take tail.length) ++ dot :: old.take tail.length := by
      rw [hcut]
    have hshort := h.take_extension hstem tail.length
    have hup : stem ++ dot :: old.take tail.length ≠ up := by
      intro hup
      obtain ⟨hstem', hnone⟩ := (eq_up_iff hstem).mp hup
      rw [List.take_eq_nil_iff, List.length_eq_zero_iff] at hnone
      exact hkept hstem' (hnone.resolve_right hold)
    rw [hshort.putExtension hup hsplit, hcut]

/-- The one path that loses its name with its extension. -/
theorem withExtension_of_up (h : Ends p front ([dot] ++ dot :: old) []) (hdot : dot ∉ old)
    (hold : old ≠ []) (ext : Bytes) : p.withExtension ext = ⟨front ++ up⟩ := by
  have hshort : Ends ⟨front ++ up⟩ front up [] := h.take_extension (List.cons_ne_nil _ _) 0
  have hname : Path.fileName? ⟨front ++ up⟩ = none := by
    rw [hshort.fileName?, if_pos rfl]
  rw [h.withExtension_eq (List.cons_ne_nil _ _) hdot hold, h.take_bytes,
    if_neg (by simpa using hold)]
  exact (by rw [Path.putExtension, hname] : Path.putExtension ⟨front ++ up⟩ ext = ⟨front ++ up⟩)

end Ends

end Relay.Path

import Relay.Proofs.Text.Utf8

/-!
# Text that was cut

Octets of a text that are cut at a limit are read as the characters that are there in whole, and the
start of a character that is left over reads as one U+FFFD.  That start is one invalid part, since
every octet of it can still be completed (`piece_of_cut`): whether one, two or three octets of the
character are left makes no difference.

`Fits` says what the whole characters are without saying how they are found: the longest front of the
text that the limit leaves room for.
-/

namespace Relay.Utf8

/-! ## The start of a character -/

/-- The octets of a character after the leading one, by their number. -/
theorem octets_of_piece {lead : UInt8} {bs rest : Bytes} {c : Char}
    (h : piece lead bs = (.char c, rest)) :
    (following lead = some 0 ∧ bs = rest) ∨
      (following lead = some 1 ∧ ∃ b₁, bs = b₁ :: rest) ∨
      (following lead = some 2 ∧ ∃ b₁ b₂, bs = b₁ :: b₂ :: rest ∧ isSecond lead b₁ = true) ∨
      ∃ n b₁ b₂ b₃, following lead = some (n + 3) ∧ bs = b₁ :: b₂ :: b₃ :: rest ∧
        isSecond lead b₁ = true ∧ isContinuation b₂ = true := by
  cases hfollowing : following lead with
  | none => simp [piece, hfollowing] at h
  | some n =>
      rcases n with _ | _ | _ | n
      · simp only [piece, hfollowing] at h
        exact .inl ⟨rfl, (Prod.mk.inj h).2⟩
      · simp only [piece, hfollowing] at h
        refine .inr (.inl ⟨rfl, ?_⟩)
        grind
      · simp only [piece, hfollowing] at h
        refine .inr (.inr (.inl ⟨rfl, ?_⟩))
        grind
      · simp only [piece, hfollowing] at h
        refine .inr (.inr (.inr ⟨n, ?_⟩))
        grind

/-- What lacks an octet of a character is one invalid part, up to its end. -/
theorem piece_of_cut {lead : UInt8} {cut more : Bytes} {c : Char} (hmore : more ≠ [])
    (h : piece lead (cut ++ more) = (.char c, [])) : piece lead cut = (.broken, []) := by
  obtain ⟨b, more, rfl⟩ := List.exists_cons_of_ne_nil hmore
  rcases octets_of_piece h with ⟨-, hbs⟩ | ⟨hfollowing, b₁, hbs⟩ |
    ⟨hfollowing, b₁, b₂, hbs, hsecond⟩ | ⟨n, b₁, b₂, b₃, hfollowing, hbs, hsecond, hthird⟩
  · simp at hbs
  · rcases cut with _ | ⟨x, cut⟩
    · simp only [piece, hfollowing]
    · simp at hbs
  · rcases cut with _ | ⟨x, _ | ⟨y, cut⟩⟩
    · simp only [piece, hfollowing]
    · obtain rfl : x = b₁ := List.head_eq_of_cons_eq hbs
      simp only [piece, hfollowing, hsecond, if_true]
    · simp at hbs
  · rcases cut with _ | ⟨x, _ | ⟨y, _ | ⟨z, cut⟩⟩⟩
    · simp only [piece, hfollowing]
    · obtain rfl : x = b₁ := List.head_eq_of_cons_eq hbs
      simp only [piece, hfollowing, hsecond, if_true]
    · obtain ⟨rfl, rfl, -⟩ : x = b₁ ∧ y = b₂ ∧ _ := by simpa using hbs
      simp only [piece, hfollowing, hsecond, hthird, if_true]
    · simp at hbs

/-- Some octets of a character, but not all, are one invalid part. -/
theorem pieces_take_encodeChar {c : Char} {n : Nat} (hpos : 0 < n)
    (hcut : n < (String.utf8EncodeChar c).length) :
    pieces ((String.utf8EncodeChar c).take n) = [.broken] := by
  obtain ⟨lead, tail, hoctets, hpiece⟩ := exists_piece_encodeChar c
  obtain ⟨m, rfl⟩ := Nat.exists_eq_succ_of_ne_zero (Nat.pos_iff_ne_zero.mp hpos)
  rw [hoctets, List.length_cons] at hcut
  have hmore : tail.drop m ≠ [] := by
    intro hnil
    have := List.drop_eq_nil_iff.mp hnil
    omega
  have hwhole : piece lead (tail.take m ++ tail.drop m) = (.char c, []) := by
    rw [List.take_append_drop]
    simpa using hpiece []
  rw [hoctets, List.take_succ_cons, pieces, piece_of_cut hmore hwhole, pieces]

/-! ## The characters that fit -/

/-- How many octets characters take. -/
def width (cs : List Char) : Nat := (cs.flatMap String.utf8EncodeChar).length

theorem width_append (cs ds : List Char) : width (cs ++ ds) = width cs + width ds := by
  rw [width, List.flatMap_append, List.length_append, ← width, ← width]

theorem width_cons (c : Char) (cs : List Char) :
    width (c :: cs) = (String.utf8EncodeChar c).length + width cs := by
  rw [width, List.flatMap_cons, List.length_append, ← width]

theorem width_le_of_isPrefix {cs ds : List Char} (h : cs <+: ds) : width cs ≤ width ds := by
  obtain ⟨rest, rfl⟩ := h
  rw [width_append]
  omega

/-- The longest front of a text whose octets the limit leaves room for. -/
structure Fits (limit : Nat) (text whole : String) : Prop where
  isPrefix : whole.toList <+: text.toList
  within : (encode whole).length ≤ limit
  longest : ∀ other : String, other.toList <+: text.toList → (encode other).length ≤ limit →
    other.toList <+: whole.toList

/-- A number of octets of a text is that of its first characters, so that a cut there falls between
two characters. -/
def Between (limit : Nat) (text : String) : Prop :=
  ∃ front : String, front.toList <+: text.toList ∧ (encode front).length = limit

namespace Fits

variable {limit : Nat} {text whole whole' : String}

theorem unique (h : Fits limit text whole) (h' : Fits limit text whole') : whole = whole' := by
  have hle := h'.longest whole h.isPrefix h.within
  have hge := h.longest whole' h'.isPrefix h'.within
  exact String.toList_inj.mp (hle.eq_of_length_le hge.length_le)

/-- The limit falls between two characters exactly when the longest front leaves no room. -/
theorem between_iff (h : Fits limit text whole) :
    Between limit text ↔ (encode whole).length = limit := by
  constructor
  · rintro ⟨other, hother, hlimit⟩
    have hle : (encode other).length ≤ (encode whole).length :=
      width_le_of_isPrefix (h.longest other hother (Nat.le_of_eq hlimit))
    have hwithin := h.within
    omega
  · intro hlimit
    exact ⟨whole, h.isPrefix, hlimit⟩

end Fits

/-- A text that takes more than the limit has a character that the limit has no room for; all before
it fit. -/
theorem exists_split_of_lt {limit : Nat} {cs : List Char} (h : limit < width cs) :
    ∃ front c back, cs = front ++ c :: back ∧ width front ≤ limit ∧
      limit < width front + (String.utf8EncodeChar c).length := by
  induction cs generalizing limit with
  | nil => exact absurd h (Nat.not_lt_zero limit)
  | cons c cs ih =>
      rw [width_cons] at h
      by_cases hroom : (String.utf8EncodeChar c).length ≤ limit
      · obtain ⟨front, d, back, rfl, hwithin, hfull⟩ :=
          @ih (limit - (String.utf8EncodeChar c).length) (by omega)
        have hfront := width_cons c front
        exact ⟨c :: front, d, back, rfl, by omega, by omega⟩
      · exact ⟨[], c, cs, rfl, Nat.zero_le limit, by simpa [width] using hroom⟩

section Split

variable {limit : Nat} {front back : List Char} {c : Char}

/-- What stands before the first character without room is the longest front that fits. -/
theorem fits_of_split (hwithin : width front ≤ limit)
    (hfull : limit < width front + (String.utf8EncodeChar c).length) :
    Fits limit (.ofList (front ++ c :: back)) (.ofList front) := by
  refine ⟨by simp, by rw [encode_ofList]; exact hwithin, ?_⟩
  intro other hother hroom
  rw [String.toList_ofList] at hother ⊢
  -- two fronts of one text: the longer one would hold the character that has no room
  rcases List.prefix_or_prefix_of_prefix hother (List.prefix_append front (c :: back)) with
    hshort | ⟨rest, hrest⟩
  · exact hshort
  · cases rest with
    | nil => exact hrest ▸ (by simp)
    | cons d rest =>
        rw [← hrest, List.prefix_append_right_inj, List.cons_prefix_cons] at hother
        have hwidth : width other.toList ≤ limit := hroom
        rw [← hrest, hother.1, width_append, width_cons] at hwidth
        omega

/-- What is left of the octets: those of the characters that fit, and the start of the next one. -/
theorem take_encode_of_split (hwithin : width front ≤ limit)
    (hfull : limit < width front + (String.utf8EncodeChar c).length) :
    (encode (.ofList (front ++ c :: back))).take limit =
      front.flatMap String.utf8EncodeChar ++
        (String.utf8EncodeChar c).take (limit - width front) := by
  rw [encode_ofList, List.flatMap_append, List.flatMap_cons, List.take_append,
    List.take_of_length_le hwithin, ← width, List.take_append_of_le_length (by omega)]

end Split

theorem decodeLossy_encode (s : String) : decodeLossy (encode s) = s := by
  rw [decodeLossy, encode, pieces_flatMap, List.map_map]
  simp [Function.comp_def, Piece.shown]

/-- A text cut at a limit reads as the longest front that fits, with one U+FFFD after it exactly when
the limit falls inside a character. -/
theorem exists_fits_of_lt {limit : Nat} {text : String} (h : limit < (encode text).length) :
    ∃ whole, Fits limit text whole ∧
      (Between limit text → decodeLossy ((encode text).take limit) = whole) ∧
      (¬ Between limit text → decodeLossy ((encode text).take limit) = whole ++ "\uFFFD") := by
  obtain ⟨front, c, back, htext, hwithin, hfull⟩ := exists_split_of_lt (show limit < width _ from h)
  obtain rfl : text = .ofList (front ++ c :: back) := by rw [← htext, String.ofList_toList]
  have hfits : Fits limit (.ofList (front ++ c :: back)) (.ofList front) :=
    fits_of_split hwithin hfull
  have hshown : ∀ ps : List Piece,
      String.ofList ((front.map Piece.char ++ ps).map Piece.shown) =
        .ofList front ++ .ofList (ps.map Piece.shown) := by
    intro ps
    simp [Function.comp_def, Piece.shown]
  rw [decodeLossy, take_encode_of_split hwithin hfull, pieces_flatMap_append, hshown,
    hfits.between_iff, encode_ofList, ← width]
  refine ⟨_, hfits, ?_, ?_⟩
  · intro hlimit
    rw [hlimit, Nat.sub_self, List.take_zero, pieces]
    simp
  · intro hinside
    rw [pieces_take_encodeChar (by omega) (by omega)]
    rfl

end Relay.Utf8

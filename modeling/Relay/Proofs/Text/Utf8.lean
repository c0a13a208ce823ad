import Relay.Text.Utf8

/-!
# Reading back what was written

The octets of a character are one piece, and reading takes exactly that piece off the front of
whatever follows it (`pieces_encodeChar`).  So the pieces of a written text are its characters, and
reading a written text gives the text; no other octets read as it (`decode?_eq_some_iff`).  An octet
below 0x80 in a written text is a character of its own.
-/

namespace Relay.Utf8

theorem encode_append (a b : String) : encode (a ++ b) = encode a ++ encode b := by
  simp [encode]

@[simp] theorem encode_ofList (cs : List Char) :
    encode (String.ofList cs) = cs.flatMap String.utf8EncodeChar := by
  simp [encode]

/-! ## The octets of a character -/

theorem toNat_ofNat_of_lt {n : Nat} (h : n < 256) : (UInt8.ofNat n).toNat = n := by
  simpa using Nat.mod_eq_of_lt h

theorem following_eq (lead : UInt8) :
    following lead =
      if lead.toNat < 128 then some 0
      else if 194 ≤ lead.toNat ∧ lead.toNat ≤ 223 then some 1
      else if 224 ≤ lead.toNat ∧ lead.toNat ≤ 239 then some 2
      else if 240 ≤ lead.toNat ∧ lead.toNat ≤ 244 then some 3
      else none := by
  simp [following, UInt8.lt_iff_toNat_lt, UInt8.le_iff_toNat_le]

theorem isContinuation_iff (b : UInt8) :
    isContinuation b = true ↔ 128 ≤ b.toNat ∧ b.toNat ≤ 191 := by
  simp [isContinuation, UInt8.le_iff_toNat_le]

/-- What may follow a leading octet: a continuation octet, from a smaller range after four of
them. -/
theorem isSecond_of {lead b : UInt8} (hrange : 128 ≤ b.toNat ∧ b.toNat ≤ 191)
    (hE0 : lead.toNat = 0xE0 → 0xA0 ≤ b.toNat) (hED : lead.toNat = 0xED → b.toNat ≤ 0x9F)
    (hF0 : lead.toNat = 0xF0 → 0x90 ≤ b.toNat) (hF4 : lead.toNat = 0xF4 → b.toNat ≤ 0x8F) :
    isSecond lead b = true := by
  simp only [isSecond, UInt8.le_iff_toNat_le, ← UInt8.toNat_inj]
  split
  · next h => simpa using ⟨hE0 h, hrange.2⟩
  split
  · next h => simpa using ⟨hrange.1, hED h⟩
  split
  · next h => simpa using ⟨hF0 h, hrange.2⟩
  split
  · next h => simpa using ⟨hrange.1, hF4 h⟩
  · exact (isContinuation_iff b).mpr hrange

theorem piece_one {v : Nat} (h : v < 128) (rest : Bytes) :
    piece (UInt8.ofNat v) rest = (.char (Char.ofNat v), rest) := by
  have hlead := toNat_ofNat_of_lt (show v < 256 by omega)
  have hfollowing : following (UInt8.ofNat v) = some 0 := by
    rw [following_eq, hlead, if_pos h]
  simp only [piece, hfollowing, hlead]

theorem piece_two {v : Nat} (hlow : 128 ≤ v) (hhigh : v < 2048) (rest : Bytes) :
    piece (UInt8.ofNat (v / 64 % 32 + 192)) (UInt8.ofNat (v % 64 + 128) :: rest) =
      (.char (Char.ofNat v), rest) := by
  have hlead := toNat_ofNat_of_lt (show v / 64 % 32 + 192 < 256 by omega)
  have hb := toNat_ofNat_of_lt (show v % 64 + 128 < 256 by omega)
  have hfollowing : following (UInt8.ofNat (v / 64 % 32 + 192)) = some 1 := by
    rw [following_eq, hlead, if_neg (by omega), if_pos (by omega)]
  have hsecond :
      isSecond (UInt8.ofNat (v / 64 % 32 + 192)) (UInt8.ofNat (v % 64 + 128)) = true := by
    apply isSecond_of <;> rw [hb] <;> omega
  have hvalue : (v / 64 % 32 + 192) % 32 * 64 + (v % 64 + 128) % 64 = v := by omega
  simp only [piece, hfollowing, hsecond, if_true, payload, hlead, hb, hvalue]

theorem piece_three {v : Nat} (hlow : 2048 ≤ v) (hhigh : v < 65536)
    (hvalid : v < 0xD800 ∨ 0xDFFF < v) (rest : Bytes) :
    piece (UInt8.ofNat (v / 4096 % 16 + 224))
        (UInt8.ofNat (v / 64 % 64 + 128) :: UInt8.ofNat (v % 64 + 128) :: rest) =
      (.char (Char.ofNat v), rest) := by
  have hlead := toNat_ofNat_of_lt (show v / 4096 % 16 + 224 < 256 by omega)
  have hb := toNat_ofNat_of_lt (show v / 64 % 64 + 128 < 256 by omega)
  have hc := toNat_ofNat_of_lt (show v % 64 + 128 < 256 by omega)
  have hfollowing : following (UInt8.ofNat (v / 4096 % 16 + 224)) = some 2 := by
    rw [following_eq, hlead, if_neg (by omega), if_neg (by omega), if_pos (by omega)]
  have hsecond : isSecond (UInt8.ofNat (v / 4096 % 16 + 224))
      (UInt8.ofNat (v / 64 % 64 + 128)) = true := by
    apply isSecond_of <;> rw [hb] <;> try rw [hlead]
    all_goals omega
  have hthird : isContinuation (UInt8.ofNat (v % 64 + 128)) = true := by
    rw [isContinuation_iff, hc]
    omega
  have hvalue : ((v / 4096 % 16 + 224) % 16 * 64 + (v / 64 % 64 + 128) % 64) * 64 +
      (v % 64 + 128) % 64 = v := by omega
  simp only [piece, hfollowing, hsecond, hthird, if_true, payload, hlead, hb, hc, hvalue]

theorem piece_four {v : Nat} (hlow : 65536 ≤ v) (hhigh : v < 0x110000) (rest : Bytes) :
    piece (UInt8.ofNat (v / 262144 % 8 + 240))
        (UInt8.ofNat (v / 4096 % 64 + 128) :: UInt8.ofNat (v / 64 % 64 + 128) ::
          UInt8.ofNat (v % 64 + 128) :: rest) =
      (.char (Char.ofNat v), rest) := by
  have hlead := toNat_ofNat_of_lt (show v / 262144 % 8 + 240 < 256 by omega)
  have hb := toNat_ofNat_of_lt (show v / 4096 % 64 + 128 < 256 by omega)
  have hc := toNat_ofNat_of_lt (show v / 64 % 64 + 128 < 256 by omega)
  have hd := toNat_ofNat_of_lt (show v % 64 + 128 < 256 by omega)
  have hfollowing : following (UInt8.ofNat (v / 262144 % 8 + 240)) = some 3 := by
    rw [following_eq, hlead, if_neg (by omega), if_neg (by omega), if_neg (by omega),
      if_pos (by omega)]
  have hsecond : isSecond (UInt8.ofNat (v / 262144 % 8 + 240))
      (UInt8.ofNat (v / 4096 % 64 + 128)) = true := by
    apply isSecond_of <;> rw [hb] <;> try rw [hlead]
    all_goals omega
  have hthird : isContinuation (UInt8.ofNat (v / 64 % 64 + 128)) = true := by
    rw [isContinuation_iff, hc]
    omega
  have hfourth : isContinuation (UInt8.ofNat (v % 64 + 128)) = true := by
    rw [isContinuation_iff, hd]
    omega
  have hvalue : (((v / 262144 % 8 + 240) % 8 * 64 + (v / 4096 % 64 + 128) % 64) * 64 +
      (v / 64 % 64 + 128) % 64) * 64 + (v % 64 + 128) % 64 = v := by omega
  simp only [piece, hfollowing, hsecond, hthird, hfourth, if_true, payload, hlead, hb, hc, hd,
    hvalue]

/-- The octets of a character are one piece, whatever follows them. -/
theorem exists_piece_encodeChar (c : Char) :
    ∃ lead tail, String.utf8EncodeChar c = lead :: tail ∧
      ∀ rest, piece lead (tail ++ rest) = (.char c, rest) := by
  have hvalid : c.val.toNat < 0xD800 ∨ (0xDFFF < c.val.toNat ∧ c.val.toNat < 0x110000) := c.valid
  have hchar : Char.ofNat c.val.toNat = c := Char.ofNat_toNat c
  rw [String.utf8EncodeChar]
  generalize c.val.toNat = v at hvalid hchar
  -- by the number of octets that the character takes
  split
  · refine ⟨_, _, rfl, fun rest => ?_⟩
    rw [List.nil_append, piece_one (by omega), hchar]
  split
  · refine ⟨_, _, rfl, fun rest => ?_⟩
    rw [List.singleton_append, piece_two (by omega) (by omega), hchar]
  split
  · refine ⟨_, _, rfl, fun rest => ?_⟩
    rw [List.cons_append, List.singleton_append, piece_three (by omega) (by omega) (by omega), hchar]
  · refine ⟨_, _, rfl, fun rest => ?_⟩
    rw [List.cons_append, List.cons_append, List.singleton_append,
      piece_four (by omega) (by omega), hchar]

/-- Reading takes the octets of a character off the front, and nothing else. -/
theorem pieces_encodeChar (c : Char) (rest : Bytes) :
    pieces (String.utf8EncodeChar c ++ rest) = .char c :: pieces rest := by
  obtain ⟨lead, tail, hoctets, hpiece⟩ := exists_piece_encodeChar c
  rw [hoctets, List.cons_append, pieces, hpiece]

theorem pieces_flatMap_append (cs : List Char) (rest : Bytes) :
    pieces (cs.flatMap String.utf8EncodeChar ++ rest) = cs.map .char ++ pieces rest := by
  induction cs with
  | nil => simp
  | cons c cs ih =>
      rw [List.flatMap_cons, List.append_assoc, pieces_encodeChar, ih, List.map_cons,
        List.cons_append]

theorem pieces_flatMap (cs : List Char) :
    pieces (cs.flatMap String.utf8EncodeChar) = cs.map .char := by
  have hall := pieces_flatMap_append cs []
  rwa [List.append_nil, pieces, List.append_nil] at hall

/-- A written text reads back as it was. -/
theorem decode?_encode (s : String) : decode? (encode s) = some s := by
  have hchars : ∀ cs : List Char, (cs.map Piece.char).mapM Piece.char? = some cs := by
    intro cs
    induction cs with
    | nil => rfl
    | cons c cs ih => simp [List.mapM_cons, ih, Piece.char?]
  rw [decode?, encode, pieces_flatMap, hchars]
  simp

/-! ## Writing back what was read

The other way round: octets that read as a character are those that the character is written as.
Ranges of the leading octet and the one after it keep out every other way to write it. -/

theorem val_toNat_ofNat {v : Nat} (h : v.isValidChar) : (Char.ofNat v).val.toNat = v := by
  rw [Char.ofNat, dif_pos h]
  rfl

theorem ofNat_eq_of_toNat {n : Nat} {b : UInt8} (h : n = b.toNat) : UInt8.ofNat n = b := by
  rw [h, UInt8.ofNat_toNat]

theorem following_eq_some {lead : UInt8} {n : Nat} (h : following lead = some n) :
    (n = 0 ∧ lead.toNat < 128) ∨ (n = 1 ∧ 194 ≤ lead.toNat ∧ lead.toNat ≤ 223) ∨
      (n = 2 ∧ 224 ≤ lead.toNat ∧ lead.toNat ≤ 239) ∨
      (n = 3 ∧ 240 ≤ lead.toNat ∧ lead.toNat ≤ 244) := by
  rw [following_eq] at h
  grind

theorem toNat_of_isSecond {lead b : UInt8} (h : isSecond lead b = true) :
    128 ≤ b.toNat ∧ b.toNat ≤ 191 ∧ (lead.toNat = 0xE0 → 0xA0 ≤ b.toNat) ∧
      (lead.toNat = 0xED → b.toNat ≤ 0x9F) ∧ (lead.toNat = 0xF0 → 0x90 ≤ b.toNat) ∧
      (lead.toNat = 0xF4 → b.toNat ≤ 0x8F) := by
  simp only [isSecond, isContinuation, UInt8.le_iff_toNat_le, ← UInt8.toNat_inj] at h
  grind

theorem encodeChar_one {lead : UInt8} (hlead : lead.toNat < 128) :
    String.utf8EncodeChar (Char.ofNat lead.toNat) = [lead] := by
  rw [String.utf8EncodeChar, val_toNat_ofNat (.inl (by omega)), if_pos (by omega),
    ofNat_eq_of_toNat rfl]

theorem encodeChar_two {lead b₁ : UInt8} (hlead : 194 ≤ lead.toNat ∧ lead.toNat ≤ 223)
    (h₁ : isSecond lead b₁ = true) :
    String.utf8EncodeChar (Char.ofNat (lead.toNat % 32 * 64 + payload b₁)) = [lead, b₁] := by
  have h₁ := toNat_of_isSecond h₁
  unfold payload
  generalize hv : lead.toNat % 32 * 64 + b₁.toNat % 64 = v
  rw [String.utf8EncodeChar, val_toNat_ofNat (.inl (by omega)), if_neg (by omega),
    if_pos (by omega), ofNat_eq_of_toNat (b := lead) (by omega),
    ofNat_eq_of_toNat (b := b₁) (by omega)]

theorem encodeChar_three {lead b₁ b₂ : UInt8} (hlead : 224 ≤ lead.toNat ∧ lead.toNat ≤ 239)
    (h₁ : isSecond lead b₁ = true) (h₂ : isContinuation b₂ = true) :
    String.utf8EncodeChar
        (Char.ofNat ((lead.toNat % 16 * 64 + payload b₁) * 64 + payload b₂)) =
      [lead, b₁, b₂] := by
  have h₁ := toNat_of_isSecond h₁
  have h₂ := (isContinuation_iff b₂).mp h₂
  unfold payload
  generalize hv : (lead.toNat % 16 * 64 + b₁.toNat % 64) * 64 + b₂.toNat % 64 = v
  have hvalid : v.isValidChar := by
    unfold Nat.isValidChar
    omega
  rw [String.utf8EncodeChar, val_toNat_ofNat hvalid, if_neg (by omega), if_neg (by omega),
    if_pos (by omega), ofNat_eq_of_toNat (b := lead) (by omega),
    ofNat_eq_of_toNat (b := b₁) (by omega), ofNat_eq_of_toNat (b := b₂) (by omega)]

theorem encodeChar_four {lead b₁ b₂ b₃ : UInt8} (hlead : 240 ≤ lead.toNat ∧ lead.toNat ≤ 244)
    (h₁ : isSecond lead b₁ = true) (h₂ : isContinuation b₂ = true)
    (h₃ : isContinuation b₃ = true) :
    String.utf8EncodeChar (Char.ofNat
        (((lead.toNat % 8 * 64 + payload b₁) * 64 + payload b₂) * 64 + payload b₃)) =
      [lead, b₁, b₂, b₃] := by
  have h₁ := toNat_of_isSecond h₁
  have h₂ := (isContinuation_iff b₂).mp h₂
  have h₃ := (isContinuation_iff b₃).mp h₃
  unfold payload
  generalize hv : ((lead.toNat % 8 * 64 + b₁.toNat % 64) * 64 + b₂.toNat % 64) * 64 +
    b₃.toNat % 64 = v
  have hvalid : v.isValidChar := by
    unfold Nat.isValidChar
    omega
  rw [String.utf8EncodeChar, val_toNat_ofNat hvalid, if_neg (by omega), if_neg (by omega),
    if_neg (by omega), ofNat_eq_of_toNat (b := lead) (by omega),
    ofNat_eq_of_toNat (b := b₁) (by omega), ofNat_eq_of_toNat (b := b₂) (by omega),
    ofNat_eq_of_toNat (b := b₃) (by omega)]

/-- A character is written as the octets that it was read from. -/
theorem cons_eq_of_piece {lead : UInt8} {bs rest : Bytes} {c : Char}
    (h : piece lead bs = (.char c, rest)) : lead :: bs = String.utf8EncodeChar c ++ rest := by
  cases hfollowing : following lead with
  | none => simp [piece, hfollowing] at h
  | some n =>
      simp only [piece, hfollowing] at h
      rcases following_eq_some hfollowing with
        ⟨rfl, hlead⟩ | ⟨rfl, hlead⟩ | ⟨rfl, hlead⟩ | ⟨rfl, hlead⟩
      · obtain ⟨rfl, rfl⟩ : Char.ofNat lead.toNat = c ∧ bs = rest := by simpa using h
        rw [encodeChar_one hlead]
        rfl
      · obtain ⟨b₁, rfl, h₁, rfl⟩ : ∃ b₁, bs = b₁ :: rest ∧ isSecond lead b₁ = true ∧
            c = Char.ofNat (lead.toNat % 32 * 64 + payload b₁) := by
          grind
        rw [encodeChar_two hlead h₁]
        rfl
      · obtain ⟨b₁, b₂, rfl, h₁, h₂, rfl⟩ : ∃ b₁ b₂, bs = b₁ :: b₂ :: rest ∧
            isSecond lead b₁ = true ∧ isContinuation b₂ = true ∧
            c = Char.ofNat ((lead.toNat % 16 * 64 + payload b₁) * 64 + payload b₂) := by
          grind
        rw [encodeChar_three hlead h₁ h₂]
        rfl
      · obtain ⟨b₁, b₂, b₃, rfl, h₁, h₂, h₃, rfl⟩ : ∃ b₁ b₂ b₃, bs = b₁ :: b₂ :: b₃ :: rest ∧
            isSecond lead b₁ = true ∧ isContinuation b₂ = true ∧ isContinuation b₃ = true ∧
            c = Char.ofNat
              (((lead.toNat % 8 * 64 + payload b₁) * 64 + payload b₂) * 64 + payload b₃) := by
          grind
        rw [encodeChar_four hlead h₁ h₂ h₃]
        rfl

theorem eq_flatMap_of_pieces {bs : Bytes} {cs : List Char} (h : pieces bs = cs.map .char) :
    bs = cs.flatMap String.utf8EncodeChar := by
  induction cs generalizing bs with
  | nil =>
      cases bs with
      | nil => rfl
      | cons lead bs => simp [pieces] at h
  | cons c cs ih =>
      cases bs with
      | nil => simp [pieces] at h
      | cons lead bs =>
          rw [pieces, List.map_cons, List.cons.injEq] at h
          have hpiece : piece lead bs = (.char c, (piece lead bs).2) := Prod.ext h.1 rfl
          rw [cons_eq_of_piece hpiece, ih h.2, List.flatMap_cons]

theorem eq_map_of_mapM_char? {ps : List Piece} {cs : List Char}
    (h : ps.mapM Piece.char? = some cs) : ps = cs.map .char := by
  induction ps generalizing cs with
  | nil => simpa using h
  | cons p ps ih =>
      rw [List.mapM_cons] at h
      cases p with
      | broken => simp [Piece.char?] at h
      | char c =>
          obtain ⟨ds, hds, rfl⟩ : ∃ ds, ps.mapM Piece.char? = some ds ∧ c :: ds = cs := by
            simpa [Piece.char?, Option.bind_eq_some_iff] using h
          rw [ih hds, List.map_cons]

/-- The octets that read as a text are those that the text is written as. -/
theorem decode?_eq_some_iff {bs : Bytes} {s : String} : decode? bs = some s ↔ bs = encode s := by
  constructor
  · intro h
    obtain ⟨cs, hcs, rfl⟩ := Option.map_eq_some_iff.mp h
    rw [encode_ofList]
    exact eq_flatMap_of_pieces (eq_map_of_mapM_char? hcs)
  · rintro rfl
    exact decode?_encode s

theorem encode_injective {s t : String} (h : encode s = encode t) : s = t := by
  have hs := decode?_encode s
  rw [h, decode?_encode] at hs
  exact (Option.some.inj hs).symm

/-! ## ASCII -/

theorem encodeChar_of_lt {c : Char} (h : c.toNat < 128) :
    String.utf8EncodeChar c = [UInt8.ofNat c.toNat] := by
  rw [String.utf8EncodeChar]
  exact if_pos (Nat.le_of_lt_succ h)

/-- No octet of a character beyond ASCII is in ASCII. -/
theorem le_of_mem_encodeChar {c : Char} {b : UInt8} (hc : 128 ≤ c.toNat)
    (hmem : b ∈ String.utf8EncodeChar c) : 128 ≤ b.toNat := by
  have hoctet : ∀ n, n < 128 → b = UInt8.ofNat (n + 128) → 128 ≤ b.toNat := by
    intro n hn hb
    rw [hb, toNat_ofNat_of_lt (by omega)]
    omega
  have hv : 128 ≤ c.val.toNat := hc
  rw [String.utf8EncodeChar] at hmem
  generalize c.val.toNat = v at hmem hv
  rw [if_neg (by omega)] at hmem
  -- a leading octet is 128 and more too, so its number is shown as one more than 128
  split at hmem
  · simp only [List.mem_cons, List.not_mem_nil, or_false] at hmem
    rcases hmem with h | h
    · exact hoctet (v / 64 % 32 + 64) (by omega) h
    · exact hoctet _ (by omega) h
  split at hmem
  · simp only [List.mem_cons, List.not_mem_nil, or_false] at hmem
    rcases hmem with h | h | h
    · exact hoctet (v / 4096 % 16 + 96) (by omega) h
    · exact hoctet _ (by omega) h
    · exact hoctet _ (by omega) h
  · simp only [List.mem_cons, List.not_mem_nil, or_false] at hmem
    rcases hmem with h | h | h | h
    · exact hoctet (v / 262144 % 8 + 112) (by omega) h
    · exact hoctet _ (by omega) h
    · exact hoctet _ (by omega) h
    · exact hoctet _ (by omega) h

/-- An ASCII octet in a written text is a character of the text. -/
theorem exists_mem_of_mem_encode {s : String} {b : UInt8} (hmem : b ∈ encode s)
    (hb : b.toNat < 128) : ∃ c ∈ s.toList, c.toNat = b.toNat := by
  obtain ⟨c, hc, hin⟩ := List.mem_flatMap.mp hmem
  refine ⟨c, hc, ?_⟩
  by_cases h : c.toNat < 128
  · rw [encodeChar_of_lt h, List.mem_singleton] at hin
    rw [hin, toNat_ofNat_of_lt (by omega)]
  · have hle := le_of_mem_encodeChar (Nat.le_of_not_lt h) hin
    omega

end Relay.Utf8

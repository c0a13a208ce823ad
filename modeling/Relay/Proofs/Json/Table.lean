import Relay.Json.Writer
import Relay.Proofs.Json.Grammar
import Relay.Proofs.Keyed

/-!
# Written tables

What is written for a text is a JSON string that spells it, whatever characters it has
(`quoted_quoted`), and what is written for a table is an object with its members in their order
(`tableText_table`).  A table in which no name comes twice is therefore read back as it was.
-/

namespace Relay

/-! ## Tables whose names are distinct -/

namespace Entries

/-- No name comes twice. -/
def Distinct (es : Entries) : Prop := (es.map (·.1)).Nodup

theorem distinct_nil : Distinct [] := List.nodup_nil

variable {es : Entries} {name : String}

theorem map_fst_set_of_mem (h : name ∈ es.map (·.1)) (value : String) :
    (es.set name value).map (·.1) = es.map (·.1) := by
  induction es with
  | nil => cases h
  | cons e es ih =>
      obtain ⟨n, v⟩ := e
      by_cases hn : n = name
      · simp [set, hn]
      · have hmem : name ∈ es.map (·.1) := by simpa [Ne.symm hn] using h
        simpa [set, hn] using ih hmem

theorem set_of_not_mem (h : name ∉ es.map (·.1)) (value : String) :
    es.set name value = es ++ [(name, value)] := by
  induction es with
  | nil => rfl
  | cons e es ih =>
      obtain ⟨n, v⟩ := e
      rw [List.map_cons, List.mem_cons, not_or] at h
      rw [set, if_neg (Ne.symm h.1), ih h.2, List.cons_append]

theorem Distinct.set (h : es.Distinct) (name value : String) : (es.set name value).Distinct := by
  by_cases hmem : name ∈ es.map (·.1)
  · rw [Distinct, map_fst_set_of_mem hmem]
    exact h
  · rw [Distinct, set_of_not_mem hmem, List.map_append, List.nodup_append]
    refine ⟨h, by simp, ?_⟩
    rintro n hn m hm rfl
    obtain rfl : n = name := by simpa using hm
    exact hmem hn

theorem map_fst_erase_sublist (name : String) (es : Entries) :
    ((es.erase name).map (·.1)).Sublist (es.map (·.1)) := by
  induction es with
  | nil => exact .slnil
  | cons e es ih =>
      obtain ⟨n, v⟩ := e
      by_cases hn : n = name
      · simpa [erase, hn] using ih.cons _
      · simpa [erase, hn] using ih

theorem Distinct.erase (h : es.Distinct) (name : String) : (es.erase name).Distinct :=
  (map_fst_erase_sublist name es).nodup h

end Entries

namespace Json

open Bytes (ascii)

theorem distinct_entered {es : Entries} (h : es.Distinct) (ms : List (String × String)) :
    (entered es ms).Distinct := by
  induction ms generalizing es with
  | nil => exact h
  | cons m ms ih => exact ih (h.set m.1 m.2)

/-- Members with new names are added at the end. -/
theorem entered_eq_append {es : Entries} {ms : List (String × String)}
    (h : Entries.Distinct (es ++ ms)) : entered es ms = es ++ ms := by
  induction ms generalizing es with
  | nil => rw [List.append_nil]; rfl
  | cons m ms ih =>
      have hnew : m.1 ∉ es.map (·.1) := by
        intro hmem
        rw [Entries.Distinct, List.map_append, List.nodup_append] at h
        exact h.2.2 _ hmem _ (by simp) rfl
      have hset : es.set m.1 m.2 = es ++ [m] := Entries.set_of_not_mem hnew m.2
      have hsplit : es ++ m :: ms = (es ++ [m]) ++ ms := by simp
      show entered (es.set m.1 m.2) ms = _
      rw [hset, hsplit]
      exact ih (hsplit ▸ h)

/-- The last member of a name counts, and before all of them what the table had. -/
theorem get?_entered (name : String) (es : Entries) (ms : List (String × String)) :
    (entered es ms).get? name = (ms.reverse.lookup name).or (es.get? name) := by
  induction ms generalizing es with
  | nil => rfl
  | cons m ms ih =>
      obtain ⟨n, v⟩ := m
      show (entered (es.set n v) ms).get? name = _
      rw [ih, List.reverse_cons, List.lookup_append, Option.or_assoc, lookup_cons_if,
        List.lookup_nil]
      by_cases hn : name = n
      · simp [hn]
      · simp [hn, Entries.get?_set_of_ne hn]

/-! ## Strings -/

theorem Spelling.append {w o w' o' : Bytes} (h : Spelling w o) (h' : Spelling w' o') :
    Spelling (w ++ w') (o ++ o') := by
  induction h with
  | nil => exact h'
  | plain hquote hslash hlow _ ih => exact .plain hquote hslash hlow ih
  | short he _ ih => exact .short he ih
  | unit hn htrail hlead _ ih =>
      rw [List.append_assoc]
      exact .unit hn htrail hlead ih
  | pair hn htrail hlead hm htrail' _ ih =>
      rw [List.append_assoc]
      exact .pair hn htrail hlead hm htrail' ih

/-- Octets that need no escape spell themselves. -/
theorem Spelling.self {bs : Bytes}
    (h : ∀ b ∈ bs, b ≠ ascii '"' ∧ b ≠ ascii '\\' ∧ ¬ b < 0x20) : Spelling bs bs := by
  induction bs with
  | nil => exact .nil
  | cons b bs ih =>
      obtain ⟨hquote, hslash, hlow⟩ := h b List.mem_cons_self
      exact .plain hquote hslash hlow (ih fun c hc => h c (List.mem_cons_of_mem b hc))

/-- A character that is written as it is. -/
theorem spelling_encodeChar {c : Char} (hquote : c ≠ '"') (hslash : c ≠ '\\')
    (hlow : ¬ c.toNat < 0x20) : Spelling (String.utf8EncodeChar c) (String.utf8EncodeChar c) := by
  refine .self fun b hb => ?_
  by_cases hc : c.toNat < 128
  · rw [Utf8.encodeChar_of_lt hc, List.mem_singleton] at hb
    have hnat : b.toNat = c.toNat := by rw [hb, Utf8.toNat_ofNat_of_lt (by omega)]
    refine ⟨?_, ?_, ?_⟩
    · rintro rfl
      exact hquote (Char.toNat_inj.mp hnat.symm)
    · rintro rfl
      exact hslash (Char.toNat_inj.mp hnat.symm)
    · rw [UInt8.lt_iff_toNat_lt, hnat]
      exact hlow
  · -- beyond ASCII no octet is a quote, a backslash or a control character
    have hle := Utf8.le_of_mem_encodeChar (Nat.le_of_not_lt hc) hb
    refine ⟨?_, ?_, ?_⟩
    · rintro rfl
      exact absurd hle (by decide)
    · rintro rfl
      exact absurd hle (by decide)
    · rw [UInt8.lt_iff_toNat_lt]
      exact fun h => absurd (Nat.lt_of_le_of_lt hle h) (by decide)

theorem hexDigit_lt : ∀ n < 16, (Bytes.hexDigit n).toNat < 128 := by decide

theorem hexFour?_hexDigit : ∀ n < 32, hexFour? (ascii '0') (ascii '0')
    (ascii (Bytes.hexDigit (n / 16))) (ascii (Bytes.hexDigit (n % 16))) = some n := by decide

/-- A control character that is written by its number. -/
theorem spelling_control {c : Char} (h : c.toNat < 0x20) :
    Spelling (['\\', 'u', '0', '0', Bytes.hexDigit (c.toNat / 16),
      Bytes.hexDigit (c.toNat % 16)].flatMap String.utf8EncodeChar) (String.utf8EncodeChar c) := by
  have hhigh := Utf8.encodeChar_of_lt (hexDigit_lt (c.toNat / 16) (by omega))
  have hlow := Utf8.encodeChar_of_lt (hexDigit_lt (c.toNat % 16) (by omega))
  have htrail : isTrailUnit c.toNat = false := by simp [isTrailUnit]; omega
  have hlead : isLeadUnit c.toNat = false := by simp [isLeadUnit]; omega
  have hunit := Spelling.unit (hexFour?_hexDigit c.toNat h) htrail hlead .nil
  rw [Char.ofNat_toNat, List.append_nil] at hunit
  simp only [List.flatMap_cons, List.flatMap_nil, hhigh, hlow]
  exact hunit

/-- What is written for a character spells it. -/
theorem spelling_escapeChar (c : Char) :
    Spelling ((escapeChar c).flatMap String.utf8EncodeChar) (String.utf8EncodeChar c) := by
  have hshort : ∀ {e x : UInt8}, shortEscape? e = some x → Spelling [ascii '\\', e] [x] :=
    fun he => .short he .nil
  unfold escapeChar
  split
  · next hc => subst hc; exact hshort (by decide)
  split
  · next hc => subst hc; exact hshort (by decide)
  split
  · next hc =>
    obtain rfl : c = Char.ofNat 0x08 := Char.toNat_inj.mp hc
    exact hshort (by decide)
  split
  · next hc =>
    obtain rfl : c = Char.ofNat 0x0C := Char.toNat_inj.mp hc
    exact hshort (by decide)
  split
  · next hc => subst hc; exact hshort (by decide)
  split
  · next hc => subst hc; exact hshort (by decide)
  split
  · next hc => subst hc; exact hshort (by decide)
  split
  · next hc => exact spelling_control hc
  · next hquote hslash _ _ _ _ _ hlow =>
    simpa using spelling_encodeChar hquote hslash hlow

theorem spelling_escapeChars (cs : List Char) :
    Spelling ((escapeChars cs).flatMap String.utf8EncodeChar)
      (cs.flatMap String.utf8EncodeChar) := by
  induction cs with
  | nil => exact .nil
  | cons c cs ih =>
      rw [escapeChars, List.flatMap_cons, List.flatMap_append, List.flatMap_cons]
      exact (spelling_escapeChar c).append ih

/-- What is written for a text is a string that spells it. -/
theorem quoted_quoted (s : String) : Quoted (Utf8.encode (quoted s)) s := by
  have hoctets : Utf8.encode (quoted s) =
      ascii '"' :: ((escapeChars s.toList).flatMap String.utf8EncodeChar ++ [ascii '"']) := by
    rw [quoted, Utf8.encode_ofList, List.flatMap_append, List.flatMap_cons]
    rfl
  rw [hoctets]
  exact .mk (spelling_escapeChars s.toList) (Utf8.decode?_encode s)

/-! ## Tables -/

theorem Spaces.cons {b : UInt8} {ws : Bytes} (hb : isSpace b = true) (h : Spaces ws) :
    Spaces (b :: ws) := by
  intro c hc
  rcases List.mem_cons.mp hc with rfl | hc
  · exact hb
  · exact h c hc

/-- The octets of a member as it is written. -/
def memberOctets (e : String × String) : Bytes :=
  Utf8.encode (quoted e.1) ++ ([] ++ ascii ':' :: ([ascii ' '] ++ Utf8.encode (quoted e.2)))

theorem memberText_memberOctets (e : String × String) : MemberText Quoted (memberOctets e) e :=
  .mk (quoted_quoted e.1) .nil (.cons (by decide) .nil) (quoted_quoted e.2)

/-- A line of a table is two spaces and a member. -/
theorem encode_tableLine (e : String × String) :
    Utf8.encode ("  " ++ quoted e.1 ++ ": " ++ quoted e.2) =
      ascii ' ' :: ascii ' ' :: memberOctets e := by
  have hindent : Utf8.encode "  " = [ascii ' ', ascii ' '] := by decide
  have hcolon : Utf8.encode ": " = [ascii ':', ascii ' '] := by decide
  rw [Utf8.encode_append, Utf8.encode_append, Utf8.encode_append, hindent, hcolon, memberOctets]
  simp

theorem encode_intercalate (sep a : String) (as : List String) :
    Utf8.encode (sep.intercalate (a :: as)) =
      Utf8.encode a ++ as.flatMap fun b => Utf8.encode sep ++ Utf8.encode b := by
  induction as generalizing a with
  | nil => simp [Utf8.encode]
  | cons b as ih =>
      have hstep : Utf8.encode (sep.intercalate (a :: b :: as)) =
          Utf8.encode a ++ Utf8.encode sep ++ Utf8.encode (sep.intercalate (b :: as)) := by
        simp [Utf8.encode]
      rw [hstep, ih, List.flatMap_cons]
      simp

/-- The end of a line and the indentation of the next. -/
theorem spaces_indent : Spaces [ascii '\n', ascii ' ', ascii ' '] :=
  .cons (by decide) (.cons (by decide) (.cons (by decide) .nil))

/-- The lines after the first, each behind a comma, and the brace that closes the table. -/
theorem membersText_lines (es : Entries) :
    MembersText Quoted false
      ((tableLines es).flatMap (fun line => Utf8.encode ",\n" ++ Utf8.encode line) ++
        [ascii '\n', ascii '}']) es := by
  have hcomma : Utf8.encode ",\n" = [ascii ',', ascii '\n'] := by decide
  induction es with
  | nil => exact .close (.cons (by decide) .nil)
  | cons e es ih =>
      have hmore := MembersText.more .nil spaces_indent (memberText_memberOctets e) ih
      simpa [tableLines, encode_tableLine, hcomma] using hmore

/-- What is written for a table is an object with its members in their order. -/
theorem tableText_table (es : Entries) : TableText (Utf8.encode (table es)) es := by
  cases es with
  | nil =>
      have hempty : Utf8.encode (table []) = [] ++ ascii '{' :: (([] ++ [ascii '}']) ++ []) := by
        decide
      rw [hempty]
      exact .mk .nil (.close .nil) .nil
  | cons e es =>
      have hopen : Utf8.encode "\x7b\n" = [ascii '{', ascii '\n'] := by decide
      have hclose : Utf8.encode "\n\x7d" = [ascii '\n', ascii '}'] := by decide
      have hfirst := MembersText.first spaces_indent (memberText_memberOctets e)
        (membersText_lines es)
      have htable := TableText.mk .nil hfirst .nil
      rw [table, Utf8.encode_append, Utf8.encode_append, tableLines, List.map_cons,
        encode_intercalate, encode_tableLine, hopen, hclose]
      · simpa [tableLines] using htable
      · nofun

/-- A table whose names are distinct is read back as it was. -/
theorem decodeTable_table {es : Entries} (h : es.Distinct) :
    decodeTable (Utf8.encode (table es)) = .ok es := by
  have hentered : entered [] es = es := entered_eq_append h
  rw [decodeTable_eq_ok_iff]
  exact ⟨es, tableText_table es, hentered.symm⟩

end Json

end Relay

import Mathlib.Data.List.Forall2
import Relay.Proofs.Json.Table

/-!
# The body of a request

A program is sent as an object with one member, whose text is the program.  `CharText c p` is the
rule for one character: which of them have a short escape, which are written by their number, and
that all others stand for themselves.  The body follows it character by character and is the only
text that does.  It is read back as the program, so no two programs share a body.
-/

namespace Relay

namespace Json

open Bytes (ascii)

/-- The characters that have a short escape, each with its letter. -/
def shortEscapes : List (Char × Char) :=
  [('"', '"'), ('\\', '\\'), (Char.ofNat 0x08, 'b'), (Char.ofNat 0x0C, 'f'), ('\n', 'n'),
    ('\r', 'r'), ('\t', 't')]

/-- The digits of a number that a character is written by. -/
def lowerDigits : List Char :=
  ['0', '1', '2', '3', '4', '5', '6', '7', '8', '9', 'a', 'b', 'c', 'd', 'e', 'f']

/-- What stands for a character between quotes. -/
inductive CharText (c : Char) : List Char → Prop where
  | short {e : Char} : (c, e) ∈ shortEscapes → CharText c ['\\', e]
  | control {high low : Char} : c.toNat < 0x20 → c ∉ shortEscapes.map Prod.fst →
      lowerDigits[c.toNat / 16]? = some high → lowerDigits[c.toNat % 16]? = some low →
      CharText c ['\\', 'u', '0', '0', high, low]
  | plain : 0x20 ≤ c.toNat → c ∉ shortEscapes.map Prod.fst → CharText c [c]

theorem lowerDigits_getElem? : ∀ n < 16, lowerDigits[n]? = some (Bytes.hexDigit n) := by decide

theorem escapeChar_of_mem : ∀ e ∈ shortEscapes, escapeChar e.1 = ['\\', e.2] := by decide

/-- What is written for a character without a short escape. -/
theorem escapeChar_of_not_mem {c : Char} (h : c ∉ shortEscapes.map Prod.fst) :
    escapeChar c = if c.toNat < 0x20 then
      ['\\', 'u', '0', '0', Bytes.hexDigit (c.toNat / 16), Bytes.hexDigit (c.toNat % 16)]
    else [c] := by
  have hne : ∀ e ∈ shortEscapes, c ≠ e.1 := by
    rintro e he rfl
    exact h (List.mem_map_of_mem he)
  have hnat : ∀ n, Char.ofNat n ≠ c → (Char.ofNat n).toNat = n → c.toNat ≠ n := by
    rintro n hc hn rfl
    exact hc (Char.ofNat_toNat c)
  have hquote : c ≠ '"' := hne ('"', '"') (by decide)
  have hslash : c ≠ '\\' := hne ('\\', '\\') (by decide)
  have hback : c.toNat ≠ 0x08 := hnat _ (hne (Char.ofNat 0x08, 'b') (by decide)).symm (by decide)
  have hfeed : c.toNat ≠ 0x0C := hnat _ (hne (Char.ofNat 0x0C, 'f') (by decide)).symm (by decide)
  have hline : c ≠ '\n' := hne ('\n', 'n') (by decide)
  have hreturn : c ≠ '\r' := hne ('\r', 'r') (by decide)
  have htab : c ≠ '\t' := hne ('\t', 't') (by decide)
  rw [escapeChar, if_neg hquote, if_neg hslash, if_neg hback, if_neg hfeed, if_neg hline,
    if_neg hreturn, if_neg htab]

/-- The rule gives each character one text, the one that is written. -/
theorem charText_iff {c : Char} {p : List Char} : CharText c p ↔ p = escapeChar c := by
  constructor
  · intro h
    cases h with
    | short he => exact (escapeChar_of_mem _ he).symm
    | control hlow hnot hhigh hdigit =>
        rw [lowerDigits_getElem? _ (by omega), Option.some.injEq] at hhigh hdigit
        rw [escapeChar_of_not_mem hnot, if_pos hlow, hhigh, hdigit]
    | plain hlow hnot => rw [escapeChar_of_not_mem hnot, if_neg (by omega)]
  · rintro rfl
    by_cases hmem : c ∈ shortEscapes.map Prod.fst
    · obtain ⟨e, he, rfl⟩ := List.mem_map.mp hmem
      rw [escapeChar_of_mem e he]
      exact .short he
    · rw [escapeChar_of_not_mem hmem]
      split
      · next hlow =>
        exact .control hlow hmem (lowerDigits_getElem? _ (by omega))
          (lowerDigits_getElem? _ (by omega))
      · next hlow => exact .plain (by omega) hmem

theorem forall₂_charText_iff {cs : List Char} {ps : List (List Char)} :
    List.Forall₂ CharText cs ps ↔ ps = cs.map escapeChar := by
  induction cs generalizing ps with
  | nil => simp
  | cons c cs ih => simp [List.forall₂_cons_left_iff, charText_iff, ih]

/-- What stands for a program: its characters in their order, each by the rule. -/
def Encloses (code body : String) : Prop :=
  ∃ ps, List.Forall₂ CharText code.toList ps ∧
    body = "\x7b\"code\":\"" ++ String.ofList ps.flatten ++ "\"\x7d"

theorem toList_runBody (code : String) :
    (runBody code).toList =
      "\x7b\"code\":\"".toList ++ escapeChars code.toList ++ "\"\x7d".toList := by
  have hopen : "\x7b\"code\":\"".toList = "\x7b\"code\":".toList ++ ['"'] := by decide
  have hclose : "\"\x7d".toList = '"' :: "\x7d".toList := by decide
  rw [runBody, quoted, String.toList_append, String.toList_append, String.toList_ofList, hopen,
    hclose]
  simp

/-- The body is the one text that stands for the program. -/
theorem encloses_iff {code body : String} : Encloses code body ↔ body = runBody code := by
  have hbody : runBody code =
      "\x7b\"code\":\"" ++ String.ofList (code.toList.map escapeChar).flatten ++ "\"\x7d" := by
    rw [← String.toList_inj, toList_runBody, escapeChars, List.flatMap_def]
    simp only [String.toList_append, String.toList_ofList]
  rw [hbody]
  constructor
  · rintro ⟨ps, hps, rfl⟩
    rw [forall₂_charText_iff.mp hps]
  · rintro rfl
    exact ⟨_, forall₂_charText_iff.mpr rfl, rfl⟩

theorem le_of_mem_lowerDigits {d : Char} (h : d ∈ lowerDigits) : 0x20 ≤ d.toNat := by
  have hall : lowerDigits.all (fun d => 0x20 ≤ d.toNat) = true := by decide
  exact of_decide_eq_true (List.all_eq_true.mp hall d h)

theorem le_of_mem_shortEscapes {e : Char × Char} (h : e ∈ shortEscapes) : 0x20 ≤ e.2.toNat := by
  have hall : shortEscapes.all (fun e => 0x20 ≤ e.2.toNat) = true := by decide
  exact of_decide_eq_true (List.all_eq_true.mp hall e h)

/-- No control character is written, whatever character is meant. -/
theorem CharText.le_of_mem {c d : Char} {p : List Char} (h : CharText c p) (hd : d ∈ p) :
    0x20 ≤ d.toNat := by
  cases h with
  | short he =>
      simp only [List.mem_cons, List.not_mem_nil, or_false] at hd
      rcases hd with rfl | rfl
      · decide
      · exact le_of_mem_shortEscapes he
  | control _ _ hhigh hlow =>
      simp only [List.mem_cons, List.not_mem_nil, or_false] at hd
      rcases hd with rfl | rfl | rfl | rfl | rfl | rfl
      · decide
      · decide
      · decide
      · decide
      · exact le_of_mem_lowerDigits (List.mem_of_getElem? hhigh)
      · exact le_of_mem_lowerDigits (List.mem_of_getElem? hlow)
  | plain hlow _ =>
      rw [List.mem_singleton.mp hd]
      exact hlow

theorem le_of_mem_runBody {code : String} {c : Char} (h : c ∈ (runBody code).toList) :
    0x20 ≤ c.toNat := by
  have hopen : "\x7b\"code\":\"".toList.all (fun d => 0x20 ≤ d.toNat) = true := by decide
  have hclose : "\"\x7d".toList.all (fun d => 0x20 ≤ d.toNat) = true := by decide
  rw [toList_runBody, List.mem_append, List.mem_append] at h
  rcases h with (h | h) | h
  · exact of_decide_eq_true (List.all_eq_true.mp hopen c h)
  · obtain ⟨d, _, hc⟩ := List.mem_flatMap.mp h
    exact (charText_iff.mpr rfl).le_of_mem hc
  · exact of_decide_eq_true (List.all_eq_true.mp hclose c h)

theorem tableText_runBody (code : String) :
    TableText (Utf8.encode (runBody code)) [("code", code)] := by
  have hopen : Utf8.encode "\x7b\"code\":" =
      ascii '{' :: (Utf8.encode (quoted "code") ++ [ascii ':']) := by decide
  have hclose : Utf8.encode "\x7d" = [ascii '}'] := by decide
  have hmember : MemberText Quoted _ ("code", code) :=
    .mk (quoted_quoted "code") .nil .nil (quoted_quoted code)
  have htable := TableText.mk .nil (.first .nil hmember (.close .nil)) .nil
  rw [runBody, Utf8.encode_append, Utf8.encode_append, hopen, hclose]
  simpa using htable

theorem decodeTable_runBody (code : String) :
    decodeTable (Utf8.encode (runBody code)) = .ok [("code", code)] :=
  decodeTable_eq_ok_iff.mpr ⟨_, tableText_runBody code, rfl⟩

end Json

open Json

/-- The body is a JSON object whose only member is `code`, and it is read back as the program.  It
follows the rule for characters and is the only text that does, it has no control character, and
no other program has it. -/
theorem runBody_carries_program (code : String) :
    (∀ ms, TableText (Utf8.encode (runBody code)) ms ↔ ms = [("code", code)]) ∧
    decodeTable (Utf8.encode (runBody code)) = .ok [("code", code)] ∧
    (∀ body, Encloses code body ↔ body = runBody code) ∧
    (∀ c ∈ (runBody code).toList, 0x20 ≤ c.toNat) ∧
    ∀ other, runBody other = runBody code → other = code := by
  refine ⟨fun ms => ⟨fun h => h.unique (tableText_runBody code), ?_⟩, decodeTable_runBody code,
    fun _ => encloses_iff, fun _ => le_of_mem_runBody, fun other h => ?_⟩
  · rintro rfl
    exact tableText_runBody code
  · have hread := decodeTable_runBody other
    rw [h, decodeTable_runBody code] at hread
    cases hread
    rfl

/-- A program of a quote, a control character, a character beyond ASCII and what looks like an
escape; and the program that is such an escape beside the one it would stand for. -/
theorem runBody_carries_program_escapes :
    Encloses "\"\x01é\\n" "\x7b\"code\":\"\\\"\\u0001é\\\\n\"\x7d" ∧
    runBody "\\n" ≠ runBody "\n" :=
  ⟨((runBody_carries_program _).2.2.1 _).mpr (by decide),
    fun h => absurd ((runBody_carries_program "\n").2.2.2.2 "\\n" h) (by decide)⟩

end Relay

import Relay.Text.Blank

/-!
# What trimming leaves

Trimming is defined by two passes from the ends.  `Trims` says what it leaves without them: a piece
of the text with nothing but blanks around it, whose own ends are no blanks.  There is one such
piece (`trims_iff`), so trimming again changes nothing.
-/

namespace Relay.Text

/-- `t` is what is left of `s` without the blanks at either end. -/
structure Trims (s t : String) : Prop where
  between : ∃ front back, allBlank front = true ∧ allBlank back = true ∧ s = front ++ t ++ back
  first : ∀ c, t.toList.head? = some c → isBlank c = false
  last : ∀ c, t.toList.getLast? = some c → isBlank c = false

/-! ## From either end -/

theorem isBlank_head?_dropWhile {cs : List Char} {c : Char}
    (h : (cs.dropWhile isBlank).head? = some c) : isBlank c = false := by
  have hnot := List.head?_dropWhile_not isBlank cs
  rwa [h] at hnot

theorem dropWhile_eq_self {cs : List Char} (h : ∀ c, cs.head? = some c → isBlank c = false) :
    cs.dropWhile isBlank = cs := by
  cases cs with
  | nil => rfl
  | cons c cs => rw [List.dropWhile_cons_of_neg (by simp [h c rfl])]

theorem dropWhile_blanks {front : List Char} (h : front.all isBlank = true) (cs : List Char) :
    (front ++ cs).dropWhile isBlank = cs.dropWhile isBlank :=
  List.dropWhile_append_of_pos (List.all_eq_true.mp h)

/-! ## From both ends -/

theorem trims_trim (s : String) : Trims s (trim s) := by
  have hstart : s.toList = s.toList.takeWhile isBlank ++ trimStartChars s.toList :=
    List.takeWhile_append_dropWhile.symm
  generalize hmid : trimStartChars s.toList = mid at hstart
  -- the second pass runs over what the first one left, from the back
  have hend : mid = trimEndChars mid ++ (mid.reverse.takeWhile isBlank).reverse := by
    rw [trimEndChars, ← List.reverse_append, List.takeWhile_append_dropWhile, List.reverse_reverse]
  have htrim : (trim s).toList = trimEndChars mid := by
    rw [trim, String.toList_ofList, trimChars, hmid]
  refine ⟨⟨.ofList (s.toList.takeWhile isBlank), .ofList (mid.reverse.takeWhile isBlank).reverse,
    ?_, ?_, ?_⟩, ?_, ?_⟩
  · simp [allBlank]
  · simp [allBlank]
  · apply String.toList_inj.mp
    rw [String.toList_append, String.toList_append, String.toList_ofList, String.toList_ofList,
      htrim, List.append_assoc, ← hend]
    exact hstart
  · intro c hc
    rw [htrim] at hc
    have hmidhead : mid.head? = some c := by
      rw [hend, List.head?_append, hc]
      rfl
    rw [← hmid] at hmidhead
    exact isBlank_head?_dropWhile hmidhead
  · intro c hc
    rw [htrim, trimEndChars, List.getLast?_reverse] at hc
    exact isBlank_head?_dropWhile hc

/-- There is only one way to trim a text. -/
theorem trims_iff {s t : String} : Trims s t ↔ t = trim s := by
  constructor
  · rintro ⟨⟨front, back, hfront, hback, rfl⟩, hfirst, hlast⟩
    apply String.toList_inj.mp
    rw [trim, String.toList_ofList, String.toList_append, String.toList_append, List.append_assoc,
      trimChars, trimStartChars, dropWhile_blanks hfront, trimEndChars]
    have hback' : back.toList.reverse.all isBlank = true := by rwa [List.all_reverse]
    by_cases ht : t.toList = []
    · -- nothing is left, and both passes run to the end of what follows
      have hnil : back.toList.dropWhile isBlank = [] := by
        rw [← List.append_nil back.toList, dropWhile_blanks hback]
        rfl
      rw [ht, List.nil_append, hnil]
      rfl
    · have hkept : (t.toList ++ back.toList).dropWhile isBlank = t.toList ++ back.toList := by
        apply dropWhile_eq_self
        intro c hc
        rw [List.head?_append, List.head?_eq_some_head ht, Option.some_or] at hc
        exact hfirst c ((List.head?_eq_some_head ht).trans hc)
      have hreverse : t.toList.reverse.dropWhile isBlank = t.toList.reverse := by
        apply dropWhile_eq_self
        intro c hc
        rw [List.head?_reverse] at hc
        exact hlast c hc
      rw [hkept, List.reverse_append, dropWhile_blanks hback', hreverse, List.reverse_reverse]
  · rintro rfl
    exact trims_trim s

/-- Blanks around a text do not count. -/
theorem trim_between {front back : String} (hfront : allBlank front = true)
    (hback : allBlank back = true) (t : String) : trim (front ++ t ++ back) = trim t := by
  have h := trims_trim t
  obtain ⟨f, b, hf, hb, ht⟩ := h.between
  have happend : ∀ {a b : String}, allBlank a = true → allBlank b = true →
      allBlank (a ++ b) = true := by
    intro a b ha hb
    unfold allBlank at ha hb
    rw [allBlank, String.toList_append, List.all_append, ha, hb]
    rfl
  symm
  rw [← trims_iff]
  refine ⟨⟨front ++ f, b ++ back, happend hfront hf, happend hb hback, ?_⟩, h.first, h.last⟩
  calc front ++ t ++ back = front ++ (f ++ trim t ++ b) ++ back := by rw [← ht]
    _ = front ++ f ++ trim t ++ (b ++ back) := by simp only [String.append_assoc]

theorem trim_trim (s : String) : trim (trim s) = trim s := by
  symm
  rw [← trims_iff]
  have h := trims_trim s
  exact ⟨⟨"", "", rfl, rfl, by simp⟩, h.first, h.last⟩

/-- Nothing is left exactly of a blank text. -/
theorem trim_eq_empty_iff {s : String} : trim s = "" ↔ allBlank s = true := by
  constructor
  · intro h
    obtain ⟨front, back, hfront, hback, hs⟩ := (trims_trim s).between
    rw [h] at hs
    unfold allBlank at hfront hback
    simp only [hs, allBlank, String.toList_append, List.all_append, hfront, hback]
    rfl
  · intro h
    symm
    rw [← trims_iff]
    exact ⟨⟨s, "", h, rfl, by simp⟩, by simp, by simp⟩

/-- Trimming takes nothing but blanks. -/
theorem mem_trim {t : String} {x : Char} (hx : isBlank x = false) (h : x ∈ t.toList) :
    x ∈ (trim t).toList := by
  obtain ⟨front, back, hfront, hback, ht⟩ := (trims_trim t).between
  have hout : ∀ blanks : String, allBlank blanks = true → x ∉ blanks.toList := by
    intro blanks hblanks hmem
    have hblank := List.all_eq_true.mp hblanks x hmem
    rw [hx] at hblank
    cases hblank
  rw [ht, String.toList_append, String.toList_append, List.mem_append, List.mem_append] at h
  exact (h.resolve_right (hout back hback)).resolve_left (hout front hfront)

end Relay.Text

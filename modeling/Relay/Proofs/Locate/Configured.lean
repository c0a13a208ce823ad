import Relay.Proofs.Locate.Search
import Relay.Proofs.Path.Components
import Relay.Proofs.Text.Blank
import Relay.Proofs.Text.Cut
import Relay.Proofs.Text.Lowercase

/-!
# The configured tool

The tool setting, trimmed, is either the script itself or a folder that holds it.  It is the script when
it ends in the script suffix in lower case, which says nothing of which texts these are:
`namesScript_iff` shows that they are those that end in `.py` with either letter small or capital, and
no others.  A folder gets one step more (`components_scriptIn`), which ends in the suffix, so the
configured path set again is configured as it is (`configured_script`).
-/

namespace Relay

open Text (lowerChar isBlank)

/-! ## Texts that name a script -/

/-- The last three characters are `.py`, each letter small or capital. -/
def EndsInScript (s : String) : Prop :=
  ∃ front p y, s.toList = front ++ ['.', p, y] ∧ (p = 'p' ∨ p = 'P') ∧ (y = 'y' ∨ y = 'Y')

theorem lowerChar_eq_dot_iff (c : Char) : lowerChar c = ['.'] ↔ c = '.' := by
  constructor
  · intro h
    rcases Text.eq_of_lowerChar h (by decide) (by decide) with rfl | ⟨hfirst, -, hlower⟩
    · rfl
    · exact absurd hlower (by simp only [Char.reduceToNat]; omega)
  · rintro rfl
    decide

/-- A small ASCII letter other than `k` is the lower-case form of itself and of its capital. -/
theorem lowerChar_eq_letter_iff {small capital : Char} (hletter : lowerChar small = [small])
    (hcapital : lowerChar capital = [small]) (hascii : small.toNat < 0x80)
    (hk : small.toNat ≠ 0x6B) (hoffset : small.toNat = capital.toNat + 32) (c : Char) :
    lowerChar c = [small] ↔ c = small ∨ c = capital := by
  constructor
  · intro h
    refine (Text.eq_of_lowerChar h hascii hk).imp_right fun hupper => ?_
    apply Char.toNat_inj.mp
    omega
  · rintro (rfl | rfl)
    · exact hletter
    · exact hcapital

/-- The script suffix in lower case comes from no other ending. -/
theorem suffix_lowered_iff {s : String} {lower : List Char} (h : Text.Lowered s.toList lower) :
    scriptSuffix.toList <:+ lower ↔ EndsInScript s := by
  have hp : ∀ c, lowerChar c = ['p'] ↔ c = 'p' ∨ c = 'P' :=
    lowerChar_eq_letter_iff (by decide) (by decide) (by decide) (by decide) (by decide)
  have hy : ∀ c, lowerChar c = ['y'] ↔ c = 'y' ∨ c = 'Y' :=
    lowerChar_eq_letter_iff (by decide) (by decide) (by decide) (by decide) (by decide)
  constructor
  · -- the three characters come off the end one by one
    rintro ⟨front, rfl⟩
    have hsplit : front ++ scriptSuffix.toList = front ++ ['.'] ++ ['p'] ++ ['y'] := by
      simp [scriptSuffix]
    rw [hsplit] at h
    obtain ⟨cs, y, hs, h, hlast⟩ := h.exists_of_ascii (by decide)
    obtain ⟨cs, p, rfl, h, hnext⟩ := h.exists_of_ascii (by decide)
    obtain ⟨cs, d, rfl, -, hfirst⟩ := h.exists_of_ascii (by decide)
    obtain rfl := (lowerChar_eq_dot_iff d).mp hfirst
    exact ⟨cs, p, y, by simp [hs], (hp p).mp hnext, (hy y).mp hlast⟩
  · rintro ⟨front, p, y, hs, hpcase, hycase⟩
    have hpascii : p.toNat < 0x80 := by
      rcases hpcase with rfl | rfl
      · decide
      · decide
    have hyascii : y.toNat < 0x80 := by
      rcases hycase with rfl | rfl
      · decide
      · decide
    have hsplit : front ++ ['.', p, y] = front ++ ['.'] ++ [p] ++ [y] := by simp
    rw [hs, hsplit] at h
    obtain ⟨withP, hlower, hrest⟩ := h.exists_of_ascii_last hyascii
    obtain ⟨withDot, rfl, hrest'⟩ := hrest.exists_of_ascii_last hpascii
    obtain ⟨ds, rfl, -⟩ := hrest'.exists_of_ascii_last (by decide)
    refine ⟨ds, ?_⟩
    rw [hlower, (lowerChar_eq_dot_iff '.').mpr rfl, (hp p).mpr hpcase, (hy y).mpr hycase]
    simp [scriptSuffix]

theorem namesScript_iff (s : String) : namesScript s = true ↔ EndsInScript s := by
  rw [namesScript, List.isSuffixOf_iff_suffix, suffix_lowered_iff (Text.lowered_lowerChars s.toList)]

/-- The script's own name ends in the suffix, whatever it is put after. -/
theorem endsInScript_append_entryPoint (s : String) : EndsInScript (s ++ entryPoint) :=
  ⟨s.toList ++ ['c', 'l', 'i'], 'p', 'y', by simp [entryPoint], .inl rfl, .inl rfl⟩

namespace EndsInScript

variable {s : String}

theorem ne_empty (h : EndsInScript s) : s ≠ "" := by
  rintro rfl
  obtain ⟨front, p, y, hs, -⟩ := h
  simp at hs

theorem not_isBlank_last (h : EndsInScript s) {c : Char} (hc : s.toList.getLast? = some c) :
    isBlank c = false := by
  obtain ⟨front, p, y, hs, -, hy⟩ := h
  obtain rfl : y = c := by simpa [hs] using hc
  rcases hy with rfl | rfl
  · decide
  · decide

end EndsInScript

/-! ## The script in a folder -/

/-- The script in a folder is one step further than the folder. -/
theorem components_scriptIn (folder : Path) :
    (scriptIn folder).components = folder.components ++ [.name (Utf8.encode entryPoint)] :=
  Path.components_join_name folder ⟨by decide, by decide⟩

/-- The script in a folder that is text, as text: with a slash before it unless there is one. -/
theorem exists_text_scriptIn (u : String) :
    ∃ w, scriptIn (.ofString u) = .ofString (u ++ w ++ entryPoint) := by
  have hname : ¬ (Path.ofString entryPoint).isAbsolute = true := by decide
  rw [scriptIn, Path.join, if_neg hname]
  split
  · refine ⟨"", ?_⟩
    rw [String.append_empty, Path.ofString, Path.ofString, Path.ofString, Utf8.encode_append]
  · refine ⟨"/", ?_⟩
    rw [String.append_assoc, Path.ofString, Path.ofString, Path.ofString, Utf8.encode_append,
      Utf8.encode_append]
    rfl

/-! ## The path that the setting asks for -/

theorem configured?_eq_none_iff (t : String) :
    configured? t = none ↔ Text.allBlank t = true := by
  rw [← Text.trim_eq_empty_iff, configured?]
  by_cases h : Text.trim t = ""
  · simp [h]
  · simp only [h, if_false, iff_false]
    split <;> simp

theorem configured?_of_endsInScript {t : String} (h : EndsInScript (Text.trim t)) :
    configured? t = some (.ofString (Text.trim t)) := by
  rw [configured?]
  simp only [h.ne_empty, if_false, (namesScript_iff _).mpr h, if_true]

theorem configured?_of_folder {t : String} (hne : Text.trim t ≠ "")
    (h : ¬ EndsInScript (Text.trim t)) :
    configured? t = some (scriptIn (.ofString (Text.trim t))) := by
  rw [← namesScript_iff] at h
  rw [configured?]
  simp only [hne, if_false, h]
  rfl

/-- A text that starts and ends well and names a script is configured as it is. -/
theorem configured?_of_script {w : String} (h : EndsInScript w)
    (hfirst : ∀ c, w.toList.head? = some c → isBlank c = false) :
    configured? w = some (.ofString w) := by
  have htrim : w = Text.trim w :=
    Text.trims_iff.mp ⟨⟨"", "", rfl, rfl, by simp⟩, hfirst, fun _ => h.not_isBlank_last⟩
  have hscript := h
  rw [htrim] at hscript
  rw [configured?_of_endsInScript hscript, ← htrim]

theorem display_ofString (w : String) : (Path.ofString w).display = w := Utf8.decodeLossy_encode w

/-- A configured path is the setting trimmed, or the script in the folder that it names. -/
theorem configured?_cases {t : String} {p : Path} (h : configured? t = some p) :
    (EndsInScript (Text.trim t) ∧ p = .ofString (Text.trim t)) ∨
      (Text.trim t ≠ "" ∧ p = scriptIn (.ofString (Text.trim t))) := by
  by_cases hne : Text.trim t = ""
  · rw [(configured?_eq_none_iff t).mpr (Text.trim_eq_empty_iff.mp hne)] at h
    cases h
  by_cases hscript : EndsInScript (Text.trim t)
  · rw [configured?_of_endsInScript hscript] at h
    exact .inl ⟨hscript, (Option.some.inj h).symm⟩
  · rw [configured?_of_folder hne hscript] at h
    exact .inr ⟨hne, (Option.some.inj h).symm⟩

/-- The configured path, as text, is configured as it is. -/
theorem configured?_display {t : String} {p : Path} (h : configured? t = some p) :
    Path.ofString p.display = p ∧ configured? p.display = some p := by
  have htrims := Text.trims_trim t
  rcases configured?_cases h with ⟨hscript, hp⟩ | ⟨hne, hp⟩
  · rw [hp, display_ofString]
    exact ⟨rfl, configured?_of_script hscript htrims.first⟩
  · obtain ⟨w, hw⟩ := exists_text_scriptIn (Text.trim t)
    rw [hp, hw, display_ofString]
    refine ⟨rfl, configured?_of_script (endsInScript_append_entryPoint _) ?_⟩
    -- the front is that of the setting, trimmed
    intro c hc
    have hcs : (Text.trim t).toList ≠ [] := by simpa using hne
    obtain ⟨x, xs, hx⟩ := List.exists_cons_of_ne_nil hcs
    apply htrims.first
    rw [String.append_assoc, String.toList_append, hx] at hc
    rw [hx]
    exact hc

/-- The path that a tool setting asks for.  There is none exactly when the setting is blank.  Else the
setting trimmed is the path as it is exactly when it ends in `.py`, each letter small or capital, and if it
does not, the path has its steps and the script's name.  No other text has the suffix in lower case.  The
path set again is asked for as it is. -/
theorem configured_script (t : String) :
    (configured? t = none ↔ Text.allBlank t = true) ∧
    (∀ u, Text.Trims t u → u ≠ "" →
      ∃ p, configured? t = some p ∧ (p = .ofString u ↔ EndsInScript u) ∧
        (¬ EndsInScript u →
          p.components = (Path.ofString u).components ++ [.name (Utf8.encode entryPoint)])) ∧
    (∀ (text : String) lower, Text.Lowered text.toList lower →
      (scriptSuffix.toList <:+ lower ↔ EndsInScript text)) ∧
    ∀ p, configured? t = some p → Path.ofString p.display = p ∧ configured? p.display = some p := by
  refine ⟨configured?_eq_none_iff t, ?_, fun _ _ => suffix_lowered_iff, fun _ => configured?_display⟩
  rintro u hu hne
  obtain rfl := Text.trims_iff.mp hu
  by_cases hscript : EndsInScript (Text.trim t)
  · exact ⟨_, configured?_of_endsInScript hscript, by simp [hscript], fun h => absurd hscript h⟩
  · have hsteps := components_scriptIn (.ofString (Text.trim t))
    refine ⟨_, configured?_of_folder hne hscript, ?_, fun _ => hsteps⟩
    rw [iff_false_right hscript]
    intro heq
    rw [heq] at hsteps
    exact absurd (congrArg List.length hsteps) (by simp)

/-- A folder between a no-break space and a blank, with a slash at its end and a capital sharp s, and a
script with one capital letter. -/
theorem configured_script_folder :
    (∃ p, configured? "\u00a0/opt/STRA\u1e9eE/ " = some p ∧
      p.components = (Path.ofString "/opt/STRA\u1e9eE/").components ++ [.name (Utf8.encode entryPoint)] ∧
      configured? p.display = some p) ∧
    configured? " ../x.pY\t" = some (.ofString "../x.pY") := by
  constructor
  · obtain ⟨-, hsome, -, hagain⟩ := configured_script "\u00a0/opt/STRA\u1e9eE/ "
    obtain ⟨p, hp, -, hsteps⟩ := hsome "/opt/STRA\u1e9eE/"
      (Text.trims_iff.mpr (by decide +kernel)) (by decide)
    have hfolder : ¬ EndsInScript "/opt/STRA\u1e9eE/" :=
      mt (namesScript_iff _).mpr (by decide +kernel)
    exact ⟨p, hp, hsteps hfolder, (hagain p hp).2⟩
  · obtain ⟨-, hsome, -, -⟩ := configured_script " ../x.pY\t"
    obtain ⟨p, hp, hwhole, -⟩ := hsome "../x.pY" (Text.trims_iff.mpr (by decide +kernel)) (by decide)
    rw [hp, hwhole.mpr ((namesScript_iff _).mp (by decide +kernel))]

end Relay

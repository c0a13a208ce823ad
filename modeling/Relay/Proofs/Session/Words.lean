import Relay.Proofs.Session.Program
import Relay.Proofs.Text.Blank

/-!
# Command words

A line is a command by its first word.  `FirstWord` divides words by blanks of any kind, while the line
is cut at a space: so the two agree unless the word is followed by another blank, with something after
it.  Such a line is a line of the program, whatever its first word is (`command_by_first_word`).
-/

namespace Relay.Session

open Text (isBlank allBlank trim trimChars trimEndChars)

/-! ## First words -/

/-- The first word of a line and what follows it, where any blank divides words; a blank line has the
empty word. -/
structure FirstWord (line word rest : String) : Prop where
  between : ∃ front, allBlank front = true ∧ line = front ++ word ++ rest
  solid : ∀ c ∈ word.toList, isBlank c = false
  divided : ∀ c, rest.toList.head? = some c → isBlank c = true
  empty : word = "" → rest = ""

namespace FirstWord

variable {line word rest : String}

theorem dropWhile_line (h : FirstWord line word rest) :
    line.toList.dropWhile isBlank = word.toList ++ rest.toList := by
  obtain ⟨front, hfront, rfl⟩ := h.between
  rw [String.toList_append, String.toList_append, List.append_assoc, Text.dropWhile_blanks hfront]
  apply Text.dropWhile_eq_self
  intro c hc
  cases hword : word.toList with
  | nil =>
      obtain rfl := h.empty (String.toList_eq_nil_iff.mp hword)
      simp [hword] at hc
  | cons d ds =>
      obtain rfl : d = c := by simpa [hword] using hc
      exact h.solid d (hword ▸ List.mem_cons_self)

/-- A line has one first word. -/
theorem unique {word' rest' : String} (h : FirstWord line word rest)
    (h' : FirstWord line word' rest') : word' = word ∧ rest' = rest := by
  have htake : ∀ {w r : String}, FirstWord line w r →
      (line.toList.dropWhile isBlank).takeWhile (!isBlank ·) = w.toList := by
    intro w r hw
    rw [hw.dropWhile_line, List.takeWhile_append_of_pos (by simpa using hw.solid)]
    cases hr : r.toList with
    | nil => simp
    | cons c cs =>
        have hc := hw.divided c (by rw [hr]; rfl)
        simp [hc]
  have hword : word' = word := String.toList_inj.mp ((htake h').symm.trans (htake h))
  have hboth := h'.dropWhile_line.symm.trans h.dropWhile_line
  rw [hword] at hboth
  exact ⟨hword, String.toList_inj.mp (List.append_cancel_left hboth)⟩

end FirstWord

theorem exists_firstWord (line : String) : ∃ word rest, FirstWord line word rest := by
  have hline : line.toList = line.toList.takeWhile isBlank ++ line.toList.dropWhile isBlank :=
    List.takeWhile_append_dropWhile.symm
  have hsolid : ∀ c, (line.toList.dropWhile isBlank).head? = some c → isBlank c = false :=
    fun c => Text.isBlank_head?_dropWhile
  generalize line.toList.dropWhile isBlank = body at hline hsolid
  refine ⟨.ofList (body.takeWhile (!isBlank ·)), .ofList (body.dropWhile (!isBlank ·)), ?_, ?_, ?_, ?_⟩
  · refine ⟨.ofList (line.toList.takeWhile isBlank), by simp [allBlank], ?_⟩
    apply String.toList_inj.mp
    simp only [String.toList_append, String.toList_ofList, List.append_assoc,
      List.takeWhile_append_dropWhile]
    exact hline
  · intro c hc
    rw [String.toList_ofList] at hc
    simpa using List.all_eq_true.mp List.all_takeWhile c hc
  · intro c hc
    rw [String.toList_ofList] at hc
    have hnot := List.head?_dropWhile_not (!isBlank ·) body
    rw [hc] at hnot
    simpa using hnot
  · -- a word can only be empty where there is nothing but blanks
    intro hempty
    cases body with
    | nil => rfl
    | cons c cs => simp [hsolid c rfl] at hempty

/-! ## What a command word asks for -/

/-- The words that make a line a command. -/
def commandWords : List String :=
  [":run", ":r", ":clear", ":reset", ":key", ":sample", ":samples", ":show", ":quit", ":q"]

/-- What a command word asks for, with what follows it. -/
inductive Asks : String → String → Input → Prop
  | run (rest : String) : Asks ":run" rest (.run .button)
  | accelerate (rest : String) : Asks ":r" rest (.run .accelerator)
  | clear (rest : String) : Asks ":clear" rest .clear
  | reset (rest : String) : Asks ":reset" rest .reset
  | key (rest : String) : Asks ":key" rest (.key (trim rest))
  | sample {rest name : String} (h : trim name = trim rest) : Asks ":sample" rest (.sample name)
  | samples (rest : String) : Asks ":samples" rest .samples
  | print (rest : String) : Asks ":show" rest .print
  | quit (rest : String) : Asks ":quit" rest .quit
  | leave (rest : String) : Asks ":q" rest .quit

/-- Blanks around what follows a word do not count. -/
theorem Asks.of_trim {word rest rest' : String} {i : Input} (h : Asks word rest i)
    (htrim : trim rest = trim rest') : Asks word rest' i := by
  cases h with
  | key => exact htrim ▸ .key rest'
  | sample hname => exact .sample (hname.trans htrim)
  | run => exact .run _
  | accelerate => exact .accelerate _
  | clear => exact .clear _
  | reset => exact .reset _
  | samples => exact .samples _
  | print => exact .print _
  | quit => exact .quit _
  | leave => exact .leave _

theorem Asks.isCommand {word rest : String} {i : Input} (h : Asks word rest i) :
    i.isCommand = true := by
  cases h <;> rfl

theorem Asks.eq_key {word rest : String} {i : Input} (h : Asks word rest i) (hword : word = ":key") :
    i = .key (trim rest) := by
  cases h with
  | key => rfl
  | _ => exact absurd hword (by decide)

/-- A line cut at its first space means what the part before it asks for. -/
theorem parse_of_split {line : String} {word rest : List Char}
    (h : splitWord (trimChars line.toList) = (word, rest)) :
    (String.ofList word ∈ commandWords → Asks (.ofList word) (.ofList rest) (.parse line)) ∧
    (String.ofList word ∉ commandWords → Input.parse line = .line line) := by
  have hkey : String.ofList (trimChars rest) = trim (.ofList rest) := by
    rw [trim, String.toList_ofList]
  unfold Input.parse
  rw [h]
  dsimp only
  generalize String.ofList word = w
  split
  · exact ⟨fun _ => .run _, fun h => absurd (by decide) h⟩
  · exact ⟨fun _ => .accelerate _, fun h => absurd (by decide) h⟩
  · exact ⟨fun _ => .clear _, fun h => absurd (by decide) h⟩
  · exact ⟨fun _ => .reset _, fun h => absurd (by decide) h⟩
  · exact ⟨fun _ => hkey ▸ .key _, fun h => absurd (by decide) h⟩
  · exact ⟨fun _ => .sample rfl, fun h => absurd (by decide) h⟩
  · exact ⟨fun _ => .samples _, fun h => absurd (by decide) h⟩
  · exact ⟨fun _ => .print _, fun h => absurd (by decide) h⟩
  · exact ⟨fun _ => .quit _, fun h => absurd (by decide) h⟩
  · exact ⟨fun _ => .leave _, fun h => absurd (by decide) h⟩
  · refine ⟨fun h => ?_, fun _ => rfl⟩
    simp_all [commandWords]

/-! ## Where a line is cut -/

theorem ne_space_of_not_isBlank {c : Char} (h : isBlank c = false) : (c != ' ') = true := by
  rw [bne_iff_ne]
  rintro rfl
  cases h

theorem takeWhile_word {word : List Char} (h : ∀ c ∈ word, isBlank c = false) (cs : List Char) :
    (word ++ cs).takeWhile (· != ' ') = word ++ cs.takeWhile (· != ' ') :=
  List.takeWhile_append_of_pos fun c hc => ne_space_of_not_isBlank (h c hc)

/-- A word is cut off at the end of the line or at a space. -/
theorem splitWord_of_space {word after : List Char} (h : ∀ c ∈ word, isBlank c = false)
    (hafter : after = [] ∨ after.head? = some ' ') : splitWord (word ++ after) = (word, after.tail) := by
  have htake : after.takeWhile (· != ' ') = [] := by
    rcases hafter with rfl | hspace
    · rfl
    · obtain ⟨cs, rfl⟩ := List.head?_eq_some_iff.mp hspace
      rfl
  rw [splitWord, takeWhile_word h, htake, List.append_nil]
  simp

/-- At another blank it is not. -/
theorem mem_splitWord_of_blank {word after : List Char} {c : Char}
    (h : ∀ c ∈ word, isBlank c = false) (hc : after.head? = some c) (hspace : c ≠ ' ') :
    c ∈ (splitWord (word ++ after)).1 := by
  obtain ⟨cs, rfl⟩ := List.head?_eq_some_iff.mp hc
  rw [splitWord, takeWhile_word h]
  simp [hspace]

theorem not_isBlank_of_mem_commandWords {word : String} (h : word ∈ commandWords) :
    ∀ c ∈ word.toList, isBlank c = false := by
  have hall : commandWords.all (fun w => w.toList.all (!isBlank ·)) = true := by decide
  intro c hc
  simpa using List.all_eq_true.mp (List.all_eq_true.mp hall word h) c hc

/-- A trimmed line is its first word and what follows that, without the blanks at the back. -/
theorem FirstWord.trimChars_line {line word rest : String} {kept back : List Char}
    (h : FirstWord line word rest) (hrest : rest.toList = kept ++ back)
    (hback : back.all isBlank = true) (hkept : ∀ c, kept.getLast? = some c → isBlank c = false) :
    trimChars line.toList = word.toList ++ kept := by
  have hreverse : back.reverse.all isBlank = true := by rwa [List.all_reverse]
  rw [trimChars, Text.trimStartChars, h.dropWhile_line, hrest, ← List.append_assoc, trimEndChars,
    List.reverse_append, Text.dropWhile_blanks hreverse, Text.dropWhile_eq_self, List.reverse_reverse]
  intro c hc
  rw [List.head?_reverse, List.getLast?_append] at hc
  cases hlast : kept.getLast? with
  | some d =>
      rw [hlast] at hc
      exact hkept c (hlast.trans hc)
  | none =>
      rw [hlast] at hc
      exact h.solid c (List.mem_of_getLast? hc)

/-- The word ends the line, but for blanks, or has a space after it. -/
def SpaceAfter (rest : String) : Prop := allBlank rest = true ∨ rest.toList.head? = some ' '

instance (rest : String) : Decidable (SpaceAfter rest) := inferInstanceAs (Decidable (_ ∨ _))

/-- The blanks at the back of what follows a word. -/
theorem exists_kept (rest : String) : ∃ kept back, rest.toList = kept ++ back ∧
    back.all isBlank = true ∧ (∀ c, kept.getLast? = some c → isBlank c = false) ∧
    (SpaceAfter rest ↔ kept = [] ∨ kept.head? = some ' ') := by
  have hsplit : rest.toList = trimEndChars rest.toList ++
      (rest.toList.reverse.takeWhile isBlank).reverse := by
    rw [trimEndChars, ← List.reverse_append, List.takeWhile_append_dropWhile, List.reverse_reverse]
  have hback : (rest.toList.reverse.takeWhile isBlank).reverse.all isBlank = true := by
    rw [List.all_reverse]
    exact List.all_takeWhile
  have hkept : ∀ c, (trimEndChars rest.toList).getLast? = some c → isBlank c = false := by
    intro c hc
    rw [trimEndChars, List.getLast?_reverse] at hc
    exact Text.isBlank_head?_dropWhile hc
  refine ⟨_, _, hsplit, hback, hkept, ?_⟩
  generalize trimEndChars rest.toList = kept at hsplit hkept
  generalize (rest.toList.reverse.takeWhile isBlank).reverse = back at hsplit hback
  unfold SpaceAfter allBlank
  rw [hsplit, List.all_append, hback, Bool.and_true]
  cases kept with
  | nil => simp
  | cons c cs =>
      have hlast : ((c :: cs).all isBlank) = false := by
        obtain ⟨d, hd⟩ : ∃ d, (c :: cs).getLast? = some d := ⟨_, List.getLast?_eq_some_getLast (by simp)⟩
        rw [List.all_eq_false]
        exact ⟨d, List.mem_of_getLast? hd, by rw [hkept d hd]; simp⟩
      simp [hlast]

theorem trim_tail_kept {rest : String} {kept back : List Char} (hrest : rest.toList = kept ++ back)
    (hback : back.all isBlank = true) (hkept : kept = [] ∨ kept.head? = some ' ') :
    trim (.ofList kept.tail) = trim rest := by
  have hblank : allBlank (.ofList back) = true := by rwa [allBlank, String.toList_ofList]
  have hparts : ∃ front, allBlank front = true ∧ rest = front ++ .ofList kept.tail ++ .ofList back := by
    rcases hkept with rfl | hspace
    · exact ⟨"", rfl, String.toList_inj.mp (by simp [hrest])⟩
    · obtain ⟨cs, rfl⟩ := List.head?_eq_some_iff.mp hspace
      exact ⟨" ", rfl, String.toList_inj.mp (by simp [hrest])⟩
  obtain ⟨front, hfront, hrest⟩ := hparts
  rw [hrest, Text.trim_between hfront hblank]

/-- A line is what its first word asks for if that is a command word with a space after it, and else a
line of the program. -/
theorem FirstWord.parse {line word rest : String} (h : FirstWord line word rest) :
    (word ∈ commandWords ∧ SpaceAfter rest → Asks word rest (.parse line)) ∧
    (¬ (word ∈ commandWords ∧ SpaceAfter rest) → Input.parse line = .line line) := by
  obtain ⟨kept, back, hrest, hback, hlast, hspace⟩ := exists_kept rest
  have htrim := h.trimChars_line hrest hback hlast
  by_cases hafter : SpaceAfter rest
  · have hkept := hspace.mp hafter
    have hparse := parse_of_split ((congrArg _ htrim).trans (splitWord_of_space h.solid hkept))
    rw [String.ofList_toList] at hparse
    refine ⟨fun hword => ?_, fun hnot => hparse.2 fun hword => hnot ⟨hword, hafter⟩⟩
    exact (hparse.1 hword.1).of_trim (trim_tail_kept hrest hback hkept)
  · refine ⟨fun hword => absurd hword.2 hafter, fun _ => ?_⟩
    obtain ⟨hne, hnospace⟩ := not_or.mp (mt hspace.mpr hafter)
    obtain ⟨c, cs, rfl⟩ := List.exists_cons_of_ne_nil hne
    have hblank : isBlank c = true := h.divided c (by rw [hrest]; rfl)
    -- what is cut off goes on after the blank, and no command word has one
    have hmem : c ∈ (splitWord (trimChars line.toList)).1 := by
      rw [htrim]
      exact mem_splitWord_of_blank h.solid rfl fun hc => hnospace (hc ▸ rfl)
    refine (parse_of_split rfl).2 fun hword => ?_
    have hsolid := not_isBlank_of_mem_commandWords hword c (by rwa [String.toList_ofList])
    rw [hblank] at hsolid
    cases hsolid

/-! ## Lines and the program -/

theorem program_step_line {σ : Type} (store : Store σ) {s : Session σ} (h : s.ended = false)
    (line : String) :
    (s.step store (.line line)).1.program = (Input.parse line).amend s.program := by
  rw [step, if_neg (by simp [h]), program_takeInput]

/-- Every line has one first word.  It is a command exactly if that is a command word and either ends the
line, but for blanks, or has a space after it; then it asks for what the word and the rest say, and
otherwise it is a line of the program as it was typed.  So what is typed after the word for a key joins
the program exactly if another blank than a space comes first. -/
theorem command_by_first_word (line : String) :
    ∃ word rest, FirstWord line word rest ∧
      (∀ word' rest', FirstWord line word' rest' → word' = word ∧ rest' = rest) ∧
      ((Input.parse line).isCommand = true ↔ word ∈ commandWords ∧ SpaceAfter rest) ∧
      ((Input.parse line).isCommand = true → Asks word rest (.parse line)) ∧
      ((Input.parse line).isCommand = false → Input.parse line = .line line) ∧
      ∀ {σ : Type} (store : Store σ) (s : Session σ), s.ended = false → word = ":key" →
        (s.step store (.line line)).1.program =
          if SpaceAfter rest then s.program else s.program ++ (line ++ "\n") := by
  obtain ⟨word, rest, h⟩ := exists_firstWord line
  obtain ⟨hcommand, hline⟩ := h.parse
  have hiff : (Input.parse line).isCommand = true ↔ word ∈ commandWords ∧ SpaceAfter rest := by
    refine ⟨fun hparse => ?_, fun hword => (hcommand hword).isCommand⟩
    by_contra hword
    rw [hline hword] at hparse
    cases hparse
  refine ⟨word, rest, h, fun _ _ h' => h.unique h', hiff, fun hparse => hcommand (hiff.mp hparse), ?_, ?_⟩
  · intro hparse
    refine hline fun hword => ?_
    rw [hiff.mpr hword] at hparse
    cases hparse
  · intro σ store s hended hkey
    rw [program_step_line store hended]
    split
    · next hafter =>
      have hasks := hcommand ⟨by rw [hkey]; decide, hafter⟩
      simp [hasks.eq_key hkey, Input.amend, Input.base?, Input.code?, Text.ofLines]
    · next hafter =>
      simp [hline fun hword => hafter hword.2, Input.amend, Input.base?, Input.code?, Text.ofLines]

/-- A key typed after a tab is no command, and joins the program. -/
theorem tabbed_key_joins_program :
    FirstWord ":key\tsecret" ":key" "\tsecret" ∧ ":key" ∈ commandWords ∧
      Input.parse ":key\tsecret" = .line ":key\tsecret" ∧
      ∀ {σ : Type} (store : Store σ) (credential : Credential σ),
        ((Session.new credential).step store (.line ":key\tsecret")).1.program =
          defaultCode ++ ":key\tsecret\n" := by
  have hparse : Input.parse ":key\tsecret" = .line ":key\tsecret" := by decide +kernel
  have hword : ":key" ∈ commandWords := by decide
  refine ⟨⟨⟨"", rfl, rfl⟩, not_isBlank_of_mem_commandWords hword, ?_, nofun⟩, hword, hparse, ?_⟩
  · rintro c hc
    obtain rfl : '\t' = c := Option.some.inj hc
    decide +kernel
  · intro σ store credential
    rw [program_step_line store rfl, hparse]
    rfl

end Relay.Session

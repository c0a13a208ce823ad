import Mathlib.Data.List.Induction
import Relay.Settings.Layers

/-!
# Which layer a setting comes from

Nine things can be set, and each layer supplies a value for some of them.  `Supplies s l f a` says
what the layer `l`, laid over the settings `s`, supplies: it looks at the tree of a document and at
the texts of variables, and says nothing of settings as a whole.  A document that cannot be used
supplies nothing, whatever stands in it.  After any layers every setting has the value of the last
layer that supplied one, and its default if there was none.
-/

namespace Relay

/-- The things that can be set. -/
inductive Setting where
  | interpreterPath
  | toolPath
  | workspaceFolders
  | endpoint
  | timeoutSecs
  | maxOutputBytes
  | requestTimeoutSecs
  | maxResponseBytes
  | apiKey
  deriving DecidableEq, Repr

namespace Setting

/-- What a setting can be set to. -/
def Value : Setting → Type
  | interpreterPath | toolPath | endpoint => String
  | workspaceFolders => List Path
  | timeoutSecs | maxOutputBytes | requestTimeoutSecs | maxResponseBytes => UInt64
  | apiKey => Option String

/-- The name of a setting in a document's table; the key has none. -/
def memberName? : Setting → Option String
  | interpreterPath => some "pythonPath"
  | toolPath => some "cliPath"
  | workspaceFolders => some "workspaceFolders"
  | endpoint => some "endpoint"
  | timeoutSecs => some "timeoutSecs"
  | maxOutputBytes => some "maxOutputBytes"
  | requestTimeoutSecs => some "requestTimeoutSecs"
  | maxResponseBytes => some "maxResponseBytes"
  | apiKey => none

/-- The place of a setting in a document's array; the key has none. -/
def elementPlace? : Setting → Option Nat
  | interpreterPath => some 0
  | toolPath => some 1
  | workspaceFolders => some 2
  | endpoint => some 3
  | timeoutSecs => some 4
  | maxOutputBytes => some 5
  | requestTimeoutSecs => some 6
  | maxResponseBytes => some 7
  | apiKey => none

/-- How many settings an array holds. -/
def elementCount : Nat := 8

/-- The variable of a setting. -/
def variableName : Setting → String
  | interpreterPath => "JATTI_PYTHON_PATH"
  | toolPath => "JATTI_TOOL_PATH"
  | workspaceFolders => "JATTI_WORKSPACE"
  | endpoint => "JATTI_ENDPOINT"
  | timeoutSecs => "JATTI_TIMEOUT_SECS"
  | maxOutputBytes => "JATTI_MAX_OUTPUT_BYTES"
  | requestTimeoutSecs => "JATTI_REQUEST_TIMEOUT_SECS"
  | maxResponseBytes => "JATTI_MAX_RESPONSE_BYTES"
  | apiKey => "JATTI_API_KEY"

/-- The value that a value of a document stands for. -/
def ofToml? : (f : Setting) → Toml.Value → Option f.Value
  | interpreterPath, v => SettingsDocument.text? v
  | toolPath, v => SettingsDocument.text? v
  | workspaceFolders, v => SettingsDocument.paths? v
  | endpoint, v => SettingsDocument.text? v
  | timeoutSecs, v => SettingsDocument.count? v
  | maxOutputBytes, v => SettingsDocument.count? v
  | requestTimeoutSecs, v => SettingsDocument.count? v
  | maxResponseBytes, v => SettingsDocument.count? v
  | apiKey, _ => none

/-- The value that the text of a variable stands for: a text, however empty, is itself; folders may
be none at all; a number has to be one; a key may not be blank. -/
def ofText? : (f : Setting) → String → Option f.Value
  | interpreterPath, v => some v
  | toolPath, v => some v
  | workspaceFolders, v => some (Settings.splitFolders v)
  | endpoint, v => some v
  | timeoutSecs, v => Numeral.word? (Text.trim v)
  | maxOutputBytes, v => Numeral.word? (Text.trim v)
  | requestTimeoutSecs, v => Numeral.word? (Text.trim v)
  | maxResponseBytes, v => Numeral.word? (Text.trim v)
  | apiKey, v => if Text.allBlank v then none else some (some v)

end Setting

/-- The value of a setting. -/
def Settings.get (s : Settings) : (f : Setting) → f.Value
  | .interpreterPath => s.tool.interpreterPath
  | .toolPath => s.tool.toolPath
  | .workspaceFolders => s.tool.workspaceFolders
  | .endpoint => s.endpoint
  | .timeoutSecs => s.timeoutSecs
  | .maxOutputBytes => s.maxOutputBytes
  | .requestTimeoutSecs => s.requestTimeoutSecs
  | .maxResponseBytes => s.maxResponseBytes
  | .apiKey => s.apiKey

/-- Settings are the same when every setting is. -/
theorem Settings.eq_of_get {s t : Settings} (h : ∀ f, s.get f = t.get f) : s = t := by
  obtain ⟨⟨interpreter, tool, folders⟩, endpoint, timeout, output, request, response, key⟩ := s
  obtain ⟨⟨interpreter', tool', folders'⟩, endpoint', timeout', output', request', response',
    key'⟩ := t
  obtain rfl : interpreter = interpreter' := h .interpreterPath
  obtain rfl : tool = tool' := h .toolPath
  obtain rfl : folders = folders' := h .workspaceFolders
  obtain rfl : endpoint = endpoint' := h .endpoint
  obtain rfl : timeout = timeout' := h .timeoutSecs
  obtain rfl : output = output' := h .maxOutputBytes
  obtain rfl : request = request' := h .requestTimeoutSecs
  obtain rfl : response = response' := h .maxResponseBytes
  obtain rfl : key = key' := h .apiKey
  rfl

/-! ## What a document supplies -/

/-- What stands in a table for a setting. -/
def Setting.member? (ms : Toml.Members) (f : Setting) : Option Toml.Value :=
  f.memberName?.bind fun name => ms.get? name

/-- What stands in an array for a setting. -/
def Setting.element? (vs : List Toml.Value) (f : Setting) : Option Toml.Value :=
  f.elementPlace?.bind fun place => vs[place]?

/-- What stands in a document for a setting. -/
def Setting.raw? (root : Toml.Members) (f : Setting) : Option Toml.Value :=
  match root.get? "jatti" with
  | some (.table _ ms) => f.member? ms
  | some (.array vs) => f.element? vs
  | _ => none

/-- A document can be used. -/
structure Usable (root : Toml.Members) : Prop where
  /-- The settings stand in a table, or in an array that has them all, if anywhere. -/
  shape : root.get? "jatti" = none ∨ (∃ making ms, root.get? "jatti" = some (.table making ms)) ∨
    ∃ vs, root.get? "jatti" = some (.array vs) ∧ Setting.elementCount ≤ vs.length
  /-- Each of them is of its type. -/
  typed : ∀ (f : Setting) v, f.raw? root = some v → ∃ a, f.ofToml? v = some a
  /-- The numbers beside the settings can be held. -/
  others : ∀ m ∈ root, m.1 ≠ "jatti" → m.2.fits = true
  /-- The numbers among the settings that are none of them can be held. -/
  strangers : ∀ making ms, root.get? "jatti" = some (.table making ms) →
    ∀ m ∈ ms, (¬ ∃ f : Setting, f.memberName? = some m.1) → m.2.fits = true

namespace SettingsDocument

/-- What a document that has been read sets a setting to. -/
def get? (d : SettingsDocument) : (f : Setting) → Option f.Value
  | .interpreterPath => d.interpreterPath
  | .toolPath => d.toolPath
  | .workspaceFolders => d.workspaceFolders
  | .endpoint => d.endpoint
  | .timeoutSecs => d.timeoutSecs
  | .maxOutputBytes => d.maxOutputBytes
  | .requestTimeoutSecs => d.requestTimeoutSecs
  | .maxResponseBytes => d.maxResponseBytes
  | .apiKey => none

/-- The document sets a setting to what stands there for it, and that is of its type. -/
def Reads (d : SettingsDocument) (f : Setting) (raw : Option Toml.Value) : Prop :=
  d.get? f = raw.bind f.ofToml? ∧ (d.get? f).isSome = raw.isSome

theorem reads_some_iff {d : SettingsDocument} {f : Setting} {v : Toml.Value} :
    d.Reads f (some v) ↔ ∃ a, f.ofToml? v = some a ∧ d.get? f = some a := by
  unfold Reads
  cases hread : f.ofToml? v <;> cases d.get? f <;> simp [hread, eq_comm]

theorem mem_names_iff (name : String) :
    names.contains name = true ↔ ∃ f : Setting, f.memberName? = some name := by
  rw [List.contains_iff_mem]
  constructor
  · intro h
    have hall : ∀ n ∈ names, ∃ f ∈ [Setting.interpreterPath, .toolPath, .workspaceFolders,
        .endpoint, .timeoutSecs, .maxOutputBytes, .requestTimeoutSecs, .maxResponseBytes],
        f.memberName? = some n := by decide
    obtain ⟨f, -, hf⟩ := hall name h
    exact ⟨f, hf⟩
  · rintro ⟨f, hf⟩
    cases f <;> cases hf <;> decide

/-- Every number can be held but those under the names that are known. -/
theorem all_or_fits_iff {known : String → Bool} {Known : String → Prop}
    (h : ∀ name, known name = true ↔ Known name) (ms : Toml.Members) :
    (ms.all fun (name, v) => known name || v.fits) = true ↔
      ∀ m ∈ ms, ¬ Known m.1 → m.2.fits = true := by
  rw [List.all_eq_true]
  refine forall_congr' fun m => imp_congr_right fun _ => ?_
  rw [Bool.or_eq_true, h, Classical.or_iff_not_imp_left]

theorem member?_eq_some_iff {α : Type} {read : Toml.Value → Option α} {name : String}
    {ms : Toml.Members} {o : Option α} :
    member? read name ms = some o ↔
      o = (ms.get? name).bind read ∧ o.isSome = (ms.get? name).isSome := by
  unfold member?
  cases ms.get? name with
  | none => cases o <;> simp
  | some v => cases hread : read v <;> cases o <;> simp [hread, eq_comm]

/-- A table is read exactly when each setting in it is of its type and the numbers under other
names can be held. -/
theorem ofMembers?_eq_some_iff {ms : Toml.Members} {d : SettingsDocument} :
    ofMembers? ms = some d ↔
      (∀ f : Setting, d.Reads f (f.member? ms)) ∧
      ∀ m ∈ ms, (¬ ∃ f : Setting, f.memberName? = some m.1) → m.2.fits = true := by
  rw [← all_or_fits_iff mem_names_iff]
  unfold ofMembers?
  simp only [Option.bind_eq_bind, Option.bind_eq_some_iff, member?_eq_some_iff]
  constructor
  · rintro ⟨_, h₁, _, h₂, _, h₃, _, h₄, _, h₅, _, h₆, _, h₇, _, h₈, hd⟩
    split at hd
    · next hfits =>
      cases hd
      refine ⟨fun f => ?_, hfits⟩
      cases f with
      | interpreterPath => exact h₁
      | toolPath => exact h₂
      | workspaceFolders => exact h₃
      | endpoint => exact h₄
      | timeoutSecs => exact h₅
      | maxOutputBytes => exact h₆
      | requestTimeoutSecs => exact h₇
      | maxResponseBytes => exact h₈
      | apiKey => exact ⟨rfl, rfl⟩
    · cases hd
  · rintro ⟨h, hfits⟩
    exact ⟨_, h .interpreterPath, _, h .toolPath, _, h .workspaceFolders, _, h .endpoint,
      _, h .timeoutSecs, _, h .maxOutputBytes, _, h .requestTimeoutSecs, _, h .maxResponseBytes,
      if_pos hfits⟩

/-- An array is read exactly when it has all settings and each of them is of its type. -/
theorem ofElements?_eq_some_iff {vs : List Toml.Value} {d : SettingsDocument} :
    ofElements? vs = some d ↔
      Setting.elementCount ≤ vs.length ∧ ∀ f : Setting, d.Reads f (f.element? vs) := by
  -- an array with fewer than eight elements is refused
  rcases vs with _ | ⟨v₀, _ | ⟨v₁, _ | ⟨v₂, _ | ⟨v₃, _ | ⟨v₄, _ | ⟨v₅, _ | ⟨v₆, _ | ⟨v₇, rest⟩⟩⟩⟩⟩⟩⟩⟩
  iterate 8 simp [ofElements?, Setting.elementCount]
  have hlength : Setting.elementCount ≤
      (v₀ :: v₁ :: v₂ :: v₃ :: v₄ :: v₅ :: v₆ :: v₇ :: rest).length := by
    simp only [Setting.elementCount, List.length_cons]
    omega
  rw [and_iff_right hlength]
  simp only [ofElements?, Option.bind_eq_bind, Option.bind_eq_some_iff]
  constructor
  · rintro ⟨_, h₀, _, h₁, _, h₂, _, h₃, _, h₄, _, h₅, _, h₆, _, h₇, hd⟩ f
    cases hd
    cases f with
    | interpreterPath => exact reads_some_iff.mpr ⟨_, h₀, rfl⟩
    | toolPath => exact reads_some_iff.mpr ⟨_, h₁, rfl⟩
    | workspaceFolders => exact reads_some_iff.mpr ⟨_, h₂, rfl⟩
    | endpoint => exact reads_some_iff.mpr ⟨_, h₃, rfl⟩
    | timeoutSecs => exact reads_some_iff.mpr ⟨_, h₄, rfl⟩
    | maxOutputBytes => exact reads_some_iff.mpr ⟨_, h₅, rfl⟩
    | requestTimeoutSecs => exact reads_some_iff.mpr ⟨_, h₆, rfl⟩
    | maxResponseBytes => exact reads_some_iff.mpr ⟨_, h₇, rfl⟩
    | apiKey => exact ⟨rfl, rfl⟩
  · intro h
    obtain ⟨a₀, h₀, e₀⟩ := reads_some_iff.mp (h .interpreterPath)
    obtain ⟨a₁, h₁, e₁⟩ := reads_some_iff.mp (h .toolPath)
    obtain ⟨a₂, h₂, e₂⟩ := reads_some_iff.mp (h .workspaceFolders)
    obtain ⟨a₃, h₃, e₃⟩ := reads_some_iff.mp (h .endpoint)
    obtain ⟨a₄, h₄, e₄⟩ := reads_some_iff.mp (h .timeoutSecs)
    obtain ⟨a₅, h₅, e₅⟩ := reads_some_iff.mp (h .maxOutputBytes)
    obtain ⟨a₆, h₆, e₆⟩ := reads_some_iff.mp (h .requestTimeoutSecs)
    obtain ⟨a₇, h₇, e₇⟩ := reads_some_iff.mp (h .maxResponseBytes)
    obtain ⟨i₀, i₁, i₂, i₃, i₄, i₅, i₆, i₇⟩ := d
    cases e₀; cases e₁; cases e₂; cases e₃; cases e₄; cases e₅; cases e₆; cases e₇
    exact ⟨_, h₀, _, h₁, _, h₂, _, h₃, _, h₄, _, h₅, _, h₆, _, h₇, rfl⟩

theorem eq_blank_of_reads {d : SettingsDocument} (h : ∀ f, d.Reads f none) : d = blank := by
  obtain ⟨i₀, i₁, i₂, i₃, i₄, i₅, i₆, i₇⟩ := d
  obtain rfl : i₀ = none := (h .interpreterPath).1
  obtain rfl : i₁ = none := (h .toolPath).1
  obtain rfl : i₂ = none := (h .workspaceFolders).1
  obtain rfl : i₃ = none := (h .endpoint).1
  obtain rfl : i₄ = none := (h .timeoutSecs).1
  obtain rfl : i₅ = none := (h .maxOutputBytes).1
  obtain rfl : i₆ = none := (h .requestTimeoutSecs).1
  obtain rfl : i₇ = none := (h .maxResponseBytes).1
  rfl

theorem typed_of_reads {root : Toml.Members} {d : SettingsDocument}
    (h : ∀ f : Setting, d.Reads f (f.raw? root)) (f : Setting) (v : Toml.Value)
    (hv : f.raw? root = some v) : ∃ a, f.ofToml? v = some a := by
  obtain ⟨a, ha, -⟩ := reads_some_iff.mp (hv ▸ h f)
  exact ⟨a, ha⟩

/-- A document is read exactly when it can be used, and then it sets each setting to what stands
there for it. -/
theorem ofDocument?_eq_some_iff {root : Toml.Members} {d : SettingsDocument} :
    ofDocument? root = some d ↔ Usable root ∧ ∀ f : Setting, d.Reads f (f.raw? root) := by
  have hfits := all_or_fits_iff (fun name => beq_iff_eq (a := name) (b := "jatti")) root
  unfold ofDocument?
  constructor
  · intro h
    split at h
    · next hall =>
      have hothers := hfits.mp hall
      split at h
      · next hget =>
        cases h
        have hreads : ∀ f : Setting, blank.Reads f (f.raw? root) := by
          intro f
          rw [Setting.raw?, hget]
          cases f <;> exact ⟨rfl, rfl⟩
        exact ⟨⟨.inl hget, typed_of_reads hreads, hothers, by simp [hget]⟩, hreads⟩
      · next making ms hget =>
        obtain ⟨hmembers, hstrangers⟩ := ofMembers?_eq_some_iff.mp h
        have hreads : ∀ f : Setting, d.Reads f (f.raw? root) := by
          intro f
          rw [Setting.raw?, hget]
          exact hmembers f
        refine ⟨⟨.inr (.inl ⟨_, _, hget⟩), typed_of_reads hreads, hothers, ?_⟩, hreads⟩
        intro _ _ htable
        obtain ⟨rfl, rfl⟩ : making = _ ∧ ms = _ := by simpa [hget] using htable
        exact hstrangers
      · next vs hget =>
        obtain ⟨hlength, helements⟩ := ofElements?_eq_some_iff.mp h
        have hreads : ∀ f : Setting, d.Reads f (f.raw? root) := by
          intro f
          rw [Setting.raw?, hget]
          exact helements f
        exact ⟨⟨.inr (.inr ⟨_, hget, hlength⟩), typed_of_reads hreads, hothers, by simp [hget]⟩,
          hreads⟩
      · cases h
    · cases h
  · rintro ⟨husable, hreads⟩
    rw [if_pos (hfits.mpr husable.others)]
    unfold Setting.raw? at hreads
    rcases husable.shape with hget | ⟨making, ms, hget⟩ | ⟨vs, hget, hlength⟩
    · simp only [hget] at hreads ⊢
      rw [eq_blank_of_reads hreads]
    · simp only [hget] at hreads ⊢
      exact ofMembers?_eq_some_iff.mpr ⟨hreads, husable.strangers making ms hget⟩
    · simp only [hget] at hreads ⊢
      exact ofElements?_eq_some_iff.mpr ⟨hlength, hreads⟩

/-- What is read from what stands for each setting. -/
def ofRaw (raw : Setting → Option Toml.Value) : SettingsDocument where
  interpreterPath := (raw .interpreterPath).bind text?
  toolPath := (raw .toolPath).bind text?
  workspaceFolders := (raw .workspaceFolders).bind paths?
  endpoint := (raw .endpoint).bind text?
  timeoutSecs := (raw .timeoutSecs).bind count?
  maxOutputBytes := (raw .maxOutputBytes).bind count?
  requestTimeoutSecs := (raw .requestTimeoutSecs).bind count?
  maxResponseBytes := (raw .maxResponseBytes).bind count?

theorem exists_of_usable {root : Toml.Members} (h : Usable root) :
    ∃ d, ofDocument? root = some d := by
  have hget : ∀ f : Setting, (ofRaw (·.raw? root)).get? f = (f.raw? root).bind f.ofToml? := by
    intro f
    cases f with
    | apiKey => cases Setting.raw? root .apiKey <;> rfl
    | _ => rfl
  refine ⟨ofRaw (·.raw? root), ofDocument?_eq_some_iff.mpr ⟨h, fun f => ⟨hget f, ?_⟩⟩⟩
  rw [hget]
  cases hraw : f.raw? root with
  | none => rfl
  | some v =>
      obtain ⟨a, ha⟩ := h.typed f v hraw
      rw [Option.bind_some, ha]
      rfl

end SettingsDocument

/-! ## What a layer supplies -/

/-- A layer over the settings `s` supplies a value for a setting. -/
inductive Supplies (s : Settings) : Layer → (f : Setting) → f.Value → Prop where
  /-- A document supplies what stands in it, if it can be used as a whole. -/
  | document {text : String} {root : Toml.Members} {f : Setting} {v : Toml.Value} {a : f.Value} :
      Toml.parse? text = some root → Usable root → f.raw? root = some v → f.ofToml? v = some a →
      Supplies s (.document text) f a
  /-- A variable supplies what its text stands for. -/
  | environment {lookup : String → Option String} {f : Setting} {v : String} {a : f.Value} :
      lookup f.variableName = some v → f.ofText? v = some a → Supplies s (.environment lookup) f a
  /-- A folder is supplied where there is none yet. -/
  | workspace {dir : Path} : s.tool.workspaceFolders = [] →
      Supplies s (.workspace dir) .workspaceFolders [dir]

namespace Settings

theorem get_applyDocument (s : Settings) (d : SettingsDocument) (f : Setting) :
    (s.applyDocument d).get f = (d.get? f).getD (s.get f) := by
  cases f <;> rfl

/-- A number variable supplies the number that it writes, if it does. -/
theorem countOr_eq (current : UInt64) (value : Option String) :
    countOr current value = (value.bind fun v => Numeral.word? (Text.trim v)).getD current := by
  cases value with
  | none => rfl
  | some v => rw [countOr, Option.bind_some]

theorem get_applyVariables (s : Settings) (lookup : String → Option String) (f : Setting) :
    (s.applyVariables lookup).get f =
      ((lookup f.variableName).bind f.ofText?).getD (s.get f) := by
  cases f with
  | interpreterPath | toolPath | endpoint =>
      -- a text variable supplies itself
      exact congrArg (fun value => Option.getD value _) (Option.bind_fun_some _).symm
  | timeoutSecs | maxOutputBytes | requestTimeoutSecs | maxResponseBytes => exact countOr_eq _ _
  | workspaceFolders =>
      show ((lookup "JATTI_WORKSPACE").map splitFolders).getD _ =
        ((lookup "JATTI_WORKSPACE").bind fun v => some (splitFolders v)).getD _
      cases lookup "JATTI_WORKSPACE" <;> rfl
  | apiKey =>
      simp only [applyVariables, get, Setting.variableName]
      cases lookup "JATTI_API_KEY" with
      | none => rfl
      | some v => cases hblank : Text.allBlank v <;> simp [hblank, Setting.ofText?] <;> rfl

end Settings

theorem supplies_document_iff {s : Settings} {text : String} {f : Setting} {a : f.Value} :
    Supplies s (.document text) f a ↔
      ∃ d, SettingsDocument.parse? text = some d ∧ d.get? f = some a := by
  unfold SettingsDocument.parse?
  constructor
  · intro h
    cases h with
    | document hparse husable hraw hread =>
        obtain ⟨d, hd⟩ := SettingsDocument.exists_of_usable husable
        have hreads := (SettingsDocument.ofDocument?_eq_some_iff.mp hd).2 f
        refine ⟨d, by rw [hparse]; exact hd, ?_⟩
        rw [hreads.1, hraw]
        exact hread
  · rintro ⟨d, hd, hget⟩
    obtain ⟨root, hparse, hdocument⟩ := Option.bind_eq_some_iff.mp hd
    obtain ⟨husable, hreads⟩ := SettingsDocument.ofDocument?_eq_some_iff.mp hdocument
    have hread : (f.raw? root).bind f.ofToml? = some a := (hreads f).1.symm.trans hget
    obtain ⟨v, hraw, hv⟩ := Option.bind_eq_some_iff.mp hread
    exact .document hparse husable hraw hv

theorem supplies_environment_iff {s : Settings} {lookup : String → Option String} {f : Setting}
    {a : f.Value} :
    Supplies s (.environment lookup) f a ↔ (lookup f.variableName).bind f.ofText? = some a := by
  rw [Option.bind_eq_some_iff]
  constructor
  · intro h
    cases h with
    | environment hlookup hread => exact ⟨_, hlookup, hread⟩
  · rintro ⟨v, hlookup, hread⟩
    exact .environment hlookup hread

namespace Settings

/-- A layer gives a setting the value that it supplies. -/
theorem get_withLayer_of_supplies {s : Settings} {l : Layer} {f : Setting} {a : f.Value}
    (h : Supplies s l f a) : (s.withLayer l).get f = a := by
  cases l with
  | document text =>
      obtain ⟨d, hd, hget⟩ := supplies_document_iff.mp h
      rw [withLayer, applyText?, hd, Option.map_some, Option.getD_some, get_applyDocument, hget,
        Option.getD_some]
  | environment lookup =>
      rw [withLayer, get_applyVariables, supplies_environment_iff.mp h, Option.getD_some]
  | workspace dir =>
      cases h with
      | workspace hempty =>
          rw [withLayer, withDefaultWorkspace, if_pos hempty]
          rfl

/-- A layer leaves a setting alone for which it supplies nothing. -/
theorem get_withLayer_of_not_supplies {s : Settings} {l : Layer} {f : Setting}
    (h : ∀ a, ¬ Supplies s l f a) : (s.withLayer l).get f = s.get f := by
  cases l with
  | document text =>
      rw [withLayer, applyText?]
      cases hd : SettingsDocument.parse? text with
      | none => rfl
      | some d =>
          have hget : d.get? f = none :=
            Option.eq_none_iff_forall_ne_some.mpr fun a ha =>
              h a (supplies_document_iff.mpr ⟨d, hd, ha⟩)
          rw [Option.map_some, Option.getD_some, get_applyDocument, hget, Option.getD_none]
  | environment lookup =>
      have hread : (lookup f.variableName).bind f.ofText? = none :=
        Option.eq_none_iff_forall_ne_some.mpr fun a ha => h a (supplies_environment_iff.mpr ha)
      rw [withLayer, get_applyVariables, hread, Option.getD_none]
  | workspace dir =>
      rw [withLayer, withDefaultWorkspace]
      split
      · next hempty =>
        cases f with
        | workspaceFolders => exact absurd (.workspace hempty) (h [dir])
        | _ => rfl
      · rfl

/-- Laying the same thing over settings twice is laying it over them once. -/
theorem withLayer_withLayer (s : Settings) (l : Layer) : (s.withLayer l).withLayer l = s.withLayer l := by
  refine eq_of_get fun f => ?_
  by_cases hsecond : ∃ a, Supplies (s.withLayer l) l f a
  · obtain ⟨a, ha⟩ := hsecond
    -- the second time nothing can be supplied that was not supplied the first time
    have hfirst : Supplies s l f a := by
      cases ha with
      | document hparse husable hraw hread => exact .document hparse husable hraw hread
      | environment hlookup hread => exact .environment hlookup hread
      | @workspace dir hempty =>
          by_cases hbefore : s.tool.workspaceFolders = []
          · exact .workspace hbefore
          · have hkept := get_withLayer_of_not_supplies (s := s) (l := .workspace dir)
              (f := .workspaceFolders) fun _ h => by cases h; contradiction
            exact absurd (hkept.symm.trans hempty) hbefore
    rw [get_withLayer_of_supplies ha, get_withLayer_of_supplies hfirst]
  · exact get_withLayer_of_not_supplies (not_exists.mp hsecond)

theorem withLayer_document_of_applyText? {s : Settings} {text : String}
    (h : s.applyText? text = none) : s.withLayer (.document text) = s := by
  rw [withLayer, h, Option.getD_none]

theorem applyText?_eq_none_iff {s : Settings} {text : String} :
    s.applyText? text = none ↔ ¬ ∃ root, Toml.parse? text = some root ∧ Usable root := by
  rw [applyText?, Option.map_eq_none_iff, SettingsDocument.parse?, Option.bind_eq_none_iff]
  constructor
  · rintro h ⟨root, hparse, husable⟩
    obtain ⟨d, hd⟩ := SettingsDocument.exists_of_usable husable
    rw [h root hparse] at hd
    cases hd
  · intro h root hparse
    refine Option.eq_none_iff_forall_ne_some.mpr fun d hd => h ⟨root, hparse, ?_⟩
    exact (SettingsDocument.ofDocument?_eq_some_iff.mp hd).1

theorem layered_append_one (layers : List Layer) (l : Layer) :
    layered (layers ++ [l]) = (layered layers).withLayer l := by
  simp [layered]

end Settings

/-! ## The last layer that supplies a setting -/

/-- None of the layers `after` supplies the setting, over those before it. -/
def Unsupplied (f : Setting) (before after : List Layer) : Prop :=
  ∀ mid l rest, after = mid ++ l :: rest → ∀ a, ¬ Supplies (Settings.layered (before ++ mid)) l f a

/-- The value of a setting by the last layer that supplies one. -/
inductive LastSupply (layers : List Layer) (f : Setting) : f.Value → Prop where
  | supplied {before after : List Layer} {l : Layer} {a : f.Value} :
      layers = before ++ l :: after → Supplies (Settings.layered before) l f a →
      Unsupplied f (before ++ [l]) after → LastSupply layers f a
  | never : Unsupplied f [] layers → LastSupply layers f (Settings.default.get f)

theorem Unsupplied.nil (f : Setting) (before : List Layer) : Unsupplied f before [] := by
  intro mid l rest h
  simp at h

theorem Unsupplied.append_one {f : Setting} {before after : List Layer} {l : Layer}
    (h : Unsupplied f before after)
    (hl : ∀ a, ¬ Supplies (Settings.layered (before ++ after)) l f a) :
    Unsupplied f before (after ++ [l]) := by
  intro mid l' rest hsplit
  rcases List.eq_nil_or_concat rest with rfl | ⟨rest', last, rfl⟩
  · obtain ⟨rfl, hlast⟩ := List.append_inj' hsplit rfl
    cases hlast
    exact hl
  · have hconcat : after ++ [l] = (mid ++ l' :: rest') ++ [last] := by simpa using hsplit
    exact h mid l' rest' (List.append_inj' hconcat rfl).1

theorem LastSupply.append_one {layers : List Layer} {f : Setting} {a : f.Value} {l : Layer}
    (h : LastSupply layers f a) (hl : ∀ a, ¬ Supplies (Settings.layered layers) l f a) :
    LastSupply (layers ++ [l]) f a := by
  cases h with
  | @supplied before after last _ hsplit hsupplies hafter =>
      subst hsplit
      have hsplit : before ++ last :: after ++ [l] = before ++ last :: (after ++ [l]) := by simp
      exact .supplied hsplit hsupplies (hafter.append_one (by simpa using hl))
  | never hnone => exact .never (hnone.append_one hl)

/-- After any layers a setting has the value of the last layer that supplied one. -/
theorem lastSupply_layered (layers : List Layer) (f : Setting) :
    LastSupply layers f ((Settings.layered layers).get f) := by
  induction layers using List.reverseRecOn with
  | nil => exact .never (.nil f [])
  | append_singleton layers l ih =>
      rw [Settings.layered_append_one]
      by_cases hsupply : ∃ a, Supplies (Settings.layered layers) l f a
      · obtain ⟨a, ha⟩ := hsupply
        rw [Settings.get_withLayer_of_supplies ha]
        exact .supplied rfl ha (.nil f _)
      · -- the last layer before this one still is the last
        have hnone := not_exists.mp hsupply
        rw [Settings.get_withLayer_of_not_supplies hnone]
        exact ih.append_one hnone

/-- For all layers, from the defaults on: every setting has the value that the last layer supplied
which supplied one, and its default if none did.  A layer leaves alone what it does not supply.  A
text that is no document, or a document that cannot be used, is refused and changes nothing.  A
layer that is laid over its own result changes nothing. -/
theorem settings_from_last_supply (layers : List Layer) :
    (∀ f, LastSupply layers f ((Settings.layered layers).get f)) ∧
    (∀ (s : Settings) (l : Layer) (f : Setting),
      (∀ a, ¬ Supplies s l f a) → (s.withLayer l).get f = s.get f) ∧
    (∀ (s : Settings) (text : String),
      (s.applyText? text = none ↔ ¬ ∃ root, Toml.parse? text = some root ∧ Usable root) ∧
      (s.applyText? text = none → s.withLayer (.document text) = s)) ∧
    ∀ (s : Settings) (l : Layer), (s.withLayer l).withLayer l = s.withLayer l :=
  ⟨lastSupply_layered layers, fun _ _ _ => Settings.get_withLayer_of_not_supplies,
    fun _ _ => ⟨Settings.applyText?_eq_none_iff, Settings.withLayer_document_of_applyText?⟩,
    Settings.withLayer_withLayer⟩

/-- A document supplies an address and a limit, variables another address and a blank key, then comes a
text that is no document, and last a folder, of which there is none yet.  The later address counts, the
limit is the document's, and the key stays as it was by default. -/
theorem settings_from_last_supply_overridden :
    let document : Layer := .document "[jatti]\nendpoint = \"a\"\ntimeoutSecs = 5\n"
    let lookup := fun name =>
      if name = "JATTI_ENDPOINT" then some "b" else if name = "JATTI_API_KEY" then some " " else none
    let dir := Path.ofString "w"
    let layers := [document, .environment lookup, .document "=", .workspace dir]
    Supplies .default document .endpoint "a" ∧
    Supplies (Settings.layered [document]) (.environment lookup) .endpoint "b" ∧
    LastSupply layers .endpoint "b" ∧ LastSupply layers .timeoutSecs (5 : UInt64) ∧
    LastSupply layers .workspaceFolders [dir] ∧ LastSupply layers .apiKey (none : Option String) ∧
    (Settings.default.withLayer (.environment lookup)).get .apiKey = Settings.default.get .apiKey ∧
    Settings.default.withLayer (.document "=") = Settings.default := by
  intro document lookup dir layers
  have hread : (SettingsDocument.parse? "[jatti]\nendpoint = \"a\"\ntimeoutSecs = 5\n").bind
      (·.endpoint) = some "a" := by decide +kernel
  have hlayered : Settings.layered layers =
      { Settings.default with
        tool := { Settings.default.tool with workspaceFolders := [dir] }
        endpoint := "b"
        timeoutSecs := 5 } := by decide +kernel
  have hblank : (lookup "JATTI_API_KEY").bind (Setting.ofText? .apiKey) = none := by decide +kernel
  have hnone : Settings.default.applyText? "=" = none := by decide +kernel
  obtain ⟨hlast, hframe, hrefused, -⟩ := settings_from_last_supply layers
  rw [hlayered] at hlast
  refine ⟨?_, .environment (if_pos rfl) rfl, hlast .endpoint, hlast .timeoutSecs,
    hlast .workspaceFolders, hlast .apiKey, ?_, (hrefused _ "=").2 hnone⟩
  · exact supplies_document_iff.mpr (Option.bind_eq_some_iff.mp hread)
  · refine hframe _ _ .apiKey fun a h => ?_
    cases hblank.symm.trans (supplies_environment_iff.mp h)

end Relay

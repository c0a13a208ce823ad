import Mathlib.Data.List.Basic
import Relay.Session.Basic

/-!
# The program of a session

What a session sends is decided by what was typed before, however the runs come and go in between.
`heard` are the inputs that count: those up to the line that quits, or to the end of the lines.
`programOf` reads the program off them without going through the session: the last text that it
was started anew with, and the lines typed since.
-/

namespace Relay.Session

/-! ## The program that inputs make -/

/-- The text that an input makes the program start anew with. -/
def Input.base? : Input → Option String
  | reset => some ""
  | sample name => findSample? name
  | _ => none

/-- The line that an input adds to the program. -/
def Input.code? : Input → Option String
  | line text => some text
  | _ => none

/-- The program after inputs: the last text to start anew with, and the lines since. -/
def programOf (inputs : List Input) : String :=
  (inputs.reverse.findSome? Input.base?).getD defaultCode ++
    Text.ofLines ((inputs.reverse.takeWhile (·.base?.isNone)).reverse.filterMap Input.code?)

theorem programOf_of_base {i : Input} {text : String} (h : i.base? = some text)
    (inputs : List Input) : programOf (inputs ++ [i]) = text := by
  simp [programOf, h, Text.ofLines]

theorem programOf_of_not_base {i : Input} (h : i.base? = none) (inputs : List Input) :
    programOf (inputs ++ [i]) = programOf inputs ++ Text.ofLines i.code?.toList := by
  have htake : (inputs ++ [i]).reverse.takeWhile (·.base?.isNone) =
      i :: inputs.reverse.takeWhile (·.base?.isNone) := by
    simp [h]
  have hfind : (inputs ++ [i]).reverse.findSome? Input.base? =
      inputs.reverse.findSome? Input.base? := by
    simp [h]
  rw [programOf, htake, hfind, programOf]
  cases hcode : i.code? with
  | none => simp [hcode, Text.ofLines]
  | some text => simp [hcode, Text.ofLines, String.append_assoc]

/-- A line that is no command is taken as it was typed. -/
theorem Input.eq_of_parse_line {line text : String} (h : Input.parse line = .line text) :
    text = line := by
  unfold Input.parse at h
  dsimp only at h
  split at h <;> first | cases h; rfl | cases h

/-! ## The inputs that count -/

/-- The step is the last one that counts among those that bring input. -/
def Step.quits : Step → Bool
  | .line text => Input.parse text = .quit
  | .ended => true
  | .poll _ _ => false

/-- The input that a step brings. -/
def Step.input? : Step → Option Input
  | .line text => some (.parse text)
  | .ended | .poll _ _ => none

/-- What a session hears of the inputs of its steps: nothing after the one that quits. -/
def heard : List Step → List Input
  | [] => []
  | s :: steps => s.input?.toList ++ if s.quits then [] else heard steps

theorem heard_append (steps more : List Step) :
    heard (steps ++ more) = heard steps ++ if steps.any Step.quits then [] else heard more := by
  induction steps with
  | nil => simp [heard]
  | cons s steps ih =>
      cases hs : s.quits with
      | true => simp [heard, hs]
      | false => simp [heard, hs, ih]

theorem heard_append_one (steps : List Step) (s : Step) :
    heard (steps ++ [s]) = heard steps ++ if steps.any Step.quits then [] else s.input?.toList := by
  rw [heard_append]
  cases hs : s.quits <;> simp [heard, hs]

/-! ## What a step does to the program -/

variable {σ : Type}

/-- What an input makes of a program. -/
def Input.amend (program : String) (i : Input) : String :=
  i.base?.getD (program ++ Text.ofLines i.code?.toList)

theorem programOf_append_one (inputs : List Input) (i : Input) :
    programOf (inputs ++ [i]) = i.amend (programOf inputs) := by
  cases h : i.base? with
  | none => rw [programOf_of_not_base h, Input.amend, h]; rfl
  | some text => rw [programOf_of_base h, Input.amend, h]; rfl

theorem program_takeInput (store : Store σ) (s : Session σ) (i : Input) :
    (s.takeInput store i).1.program = i.amend s.program := by
  cases i with
  | sample name =>
      cases h : findSample? name <;>
        simp [takeInput, useSample, Input.amend, Input.base?, Input.code?, h, Text.ofLines]
  | line text =>
      simp [takeInput, Input.amend, Input.base?, Input.code?, Text.ofLines, String.append_assoc]
  | _ => simp [takeInput, startRun, setKey, Input.amend, Input.base?, Input.code?, Text.ofLines]

theorem ended_takeInput (store : Store σ) (s : Session σ) (i : Input) :
    (s.takeInput store i).1.ended = (s.ended || decide (i = .quit)) := by
  cases i with
  | sample name => cases h : findSample? name <;> simp [takeInput, useSample, h]
  | _ => simp [takeInput, startRun, setKey]

/-- The input asks for a run. -/
def Input.isRun : Input → Bool
  | run _ => true
  | _ => false

/-- A run takes a number when it is asked for. -/
theorem next_takeInput (store : Store σ) (s : Session σ) (i : Input) :
    (s.takeInput store i).1.next = s.next + [i].countP Input.isRun := by
  cases i with
  | sample name => cases h : findSample? name <;> simp [takeInput, useSample, Input.isRun, h]
  | _ => simp [takeInput, startRun, setKey, Input.isRun]

/-- A run that gets to go changes neither the program nor whether lines are taken. -/
theorem poll_keeps (s : Session σ) (n : Nat) (report : Option Report) :
    (s.poll n report).1.program = s.program ∧ (s.poll n report).1.ended = s.ended ∧
      (s.poll n report).1.next = s.next := by
  unfold poll
  split
  · exact ⟨rfl, rfl, rfl⟩
  · dsimp only
    split <;> exact ⟨rfl, rfl, rfl⟩

end Relay.Session

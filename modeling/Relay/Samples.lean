import Relay.Text.Blank

/-!
# Sample programs

The programs that come with the playground.  They are found by name, whatever the case.
-/

namespace Relay

/-- A program with a name. -/
structure Sample where
  name : String
  code : String
  deriving DecidableEq, Repr, Inhabited

/-- The program that a session starts with. -/
def defaultCode : String :=
  Text.ofLines ["sun_we", "    chilla_we \"Hello Jatti!\"", "ja_we"]

/-- The sample programs, in the order they are listed. -/
def samples : List Sample :=
  [ ⟨"Hello", defaultCode⟩,
    ⟨"If/Else",
      Text.ofLines ["sun_we",
        "    chal_oye x ban 5",
        "    je x vadha_hai 3",
        "        chilla_we \"big\"",
        "    nahin_taan",
        "        chilla_we \"small\"",
        "ja_we"]⟩,
    ⟨"Loops",
      Text.ofLines ["sun_we",
        "    chal_oye total ban 0",
        "    har_ek i range_banao(1, 6)",
        "        chal_oye total ban total + i",
        "    chilla_we total",
        "ja_we"]⟩,
    ⟨"Try/Pakad",
      Text.ofLines ["sun_we",
        "    chal_koshish_karle",
        "        chal_oye x ban 10 / 0",
        "    pakad err",
        "        chilla_we err",
        "ja_we"]⟩ ]

/-- The code of the sample with a name. -/
def findSample? (name : String) : Option String :=
  (samples.find? fun s => Text.eqIgnoringCase s.name (Text.trim name)).map (·.code)

end Relay

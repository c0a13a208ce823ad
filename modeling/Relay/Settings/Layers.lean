import Relay.Settings.Document
import Relay.Settings.Environment

/-!
# Layers of settings

Settings are made by laying one thing over another, any number of times and in any order: the text
of a document, the variables of an environment, a folder for those who have set none.  A text that
is no settings document changes nothing.
-/

namespace Relay

/-- Something that is laid over settings. -/
inductive Layer where
  /-- The text of a document. -/
  | document (text : String)
  /-- The variables of an environment. -/
  | environment (lookup : String → Option String)
  /-- A workspace folder for settings that have none. -/
  | workspace (dir : Path)

namespace Settings

/-- The settings with what the text of a document sets; `none` when it is no settings document. -/
def applyText? (s : Settings) (text : String) : Option Settings :=
  (SettingsDocument.parse? text).map s.applyDocument

/-- The settings with one more layer over them. -/
def withLayer (s : Settings) : Layer → Settings
  | .document text => (s.applyText? text).getD s
  | .environment lookup => s.applyVariables lookup
  | .workspace dir => s.withDefaultWorkspace dir

/-- The defaults with layers over them, the first one lowest. -/
def layered (layers : List Layer) : Settings := layers.foldl withLayer default

end Settings

end Relay

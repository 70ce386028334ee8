import CrowdScenario.Directory
import CrowdScenario.Json.Typed
import CrowdScenario.Text.Quoted

/-!
# Settings (`SPEC_FULL.md`, section 10)

The switches of a compilation, their JSON text and the files with such texts. A text names the
switches it changes; all others keep their standing value.
-/

namespace CrowdScenario

inductive SettingsError where
  | unreadable (path : String) (cause : FileError)
  | malformed
deriving DecidableEq

namespace SettingsError

/-- As in descriptions, a fixed text stands for what a reader of JSON says about a text. -/
def message : SettingsError → String
  | unreadable path cause =>
    "failed to read compiler settings from " ++ Text.quoted path ++ ": " ++ cause.message
  | malformed => "failed to parse compiler settings: the text holds no settings"

end SettingsError

/-- What an author may choose about a compilation. -/
structure Settings where
  /-- A reference that leads nowhere stops the compilation. -/
  strictReferences : Bool
  /-- Relative scene files are looked up beside the description. -/
  sceneBesideDescription : Bool
  /-- Scene coordinates that do not fit are brought to the nearest that does. -/
  clampCoordinates : Bool
deriving DecidableEq

namespace Settings

/-- References must lead somewhere, scenes lie beside their description, nothing is clamped. -/
def standard : Settings := ⟨true, true, false⟩

def switch? (standing : Bool) : Option Json.Written → Option Bool
  | none => some standing
  | some w => w.bool?

def withReferences? (s : Settings) : Option Json.Written → Option Settings
  | none => some s
  | some w => do
    let [strict] ← w.fields? ["strict"] | none
    let strict ← switch? s.strictReferences strict
    return { s with strictReferences := strict }

def withScene? (s : Settings) : Option Json.Written → Option Settings
  | none => some s
  | some w => do
    let [beside, clamp] ← w.fields? ["resolve_relative_to_document", "clamp_coordinates"] | none
    let beside ← switch? s.sceneBesideDescription beside
    let clamp ← switch? s.clampCoordinates clamp
    return { s with sceneBesideDescription := beside, clampCoordinates := clamp }

def parse? (text : String) : Option Settings := do
  let tree ← Json.Written.parse? text
  let [references, scene] ← tree.fields? ["references", "scene"] | none
  (← standard.withReferences? references).withScene? scene

def ofFile (read : FileReader) (path : String) : Except SettingsError Settings :=
  match read.text path with
  | .error e => .error (.unreadable path e)
  | .ok text =>
    match parse? text with
    | some s => .ok s
    | none => .error .malformed

/-- The settings in the file that is preferred, if there is one and it holds settings. -/
def preferred? (read : FileReader) (path? : Option String) : Option Settings :=
  path?.bind fun path => (ofFile read path).toOption

def preferred (read : FileReader) (path? : Option String) : Settings :=
  (preferred? read path?).getD standard

end Settings

end CrowdScenario

import CrowdScenario.Directory
import CrowdScenario.Json.Written
import CrowdScenario.Text.Quoted

/-!
# Descriptions (`SPEC_FULL.md`, section 6)

What an author wrote about a simulation: the members of a JSON object, and the directory of the file
it comes from.
-/

namespace CrowdScenario

inductive DescriptionError where
  | unreadable (path : String) (cause : FileError)
  | notJson
  | notAnObject (found : String)
deriving DecidableEq

namespace DescriptionError

/-- Readers of JSON have words of their own for what is wrong with a text, for which a fixed text stands
here. -/
def message : DescriptionError → String
  | unreadable path cause =>
    "failed to read simulation description from " ++ Text.quoted path ++ ": " ++ cause.message
  | notJson => "failed to parse simulation description: the text is not JSON"
  | notAnObject found => s!"simulation description must be a JSON object, found {found}"

end DescriptionError

/-- A simulation as its author describes it. -/
structure Description where
  members : Json.Members
  directory? : Option String

namespace Description

def parse [Json.DoubleReader] (text : String) : Except DescriptionError Description :=
  match Json.parse? text with
  | none => .error .notJson
  | some (.object members) => .ok ⟨members, none⟩
  | some other => .error (.notAnObject other.kindName)

def inDirectory (d : Description) (directory? : Option String) : Description :=
  { d with directory? := directory? }

def ofFile [Json.DoubleReader] (read : FileReader) (path : String) :
    Except DescriptionError Description :=
  match read.text path with
  | .error e => .error (.unreadable path e)
  | .ok text => (parse text).map fun d => d.inDirectory (Location.parent? path)

def toJson (d : Description) : Json := .object d.members

end Description

end CrowdScenario

import CrowdScenario.Directory
import CrowdScenario.Text.Quoted
import CrowdScenario.Wire.Geometry

/-!
# Ingestion (`SPEC_FULL.md`, section 11)

How scene documents become geometry: an `Ingestor` answers a location with records or a failure. It
is a function, so that asking twice gives the same answer twice.
-/

namespace CrowdScenario

inductive SceneDefect where
  /-- The markup cannot be read. -/
  | markup
  /-- A corner and an extent of a rectangle have no sum. -/
  | overflow (origin extent : String)
deriving DecidableEq

namespace SceneDefect

/-- What a reader of XML says about markup that it cannot read is left out; a fixed text stands for it. -/
def message : SceneDefect → String
  | markup => "markup cannot be read"
  | overflow origin extent => s!"rect `{origin}` + `{extent}` overflows"

end SceneDefect

inductive IngestError where
  | unreadable (path : String) (cause : FileError)
  | malformed (path : String) (defect : SceneDefect)
  | missingRoot (path : String)
deriving DecidableEq

namespace IngestError

def message : IngestError → String
  | unreadable path cause =>
    "failed to read scene document " ++ Text.quoted path ++ ": " ++ cause.message
  | malformed path defect =>
    "malformed scene document " ++ Text.quoted path ++ ": " ++ defect.message
  | missingRoot path => "scene document " ++ Text.quoted path ++ " has no <svg> root element"

end IngestError

abbrev Ingestor := String → Except IngestError (List Geometry)

end CrowdScenario

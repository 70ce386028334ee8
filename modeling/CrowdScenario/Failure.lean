import CrowdScenario.Scene.Ingest
import CrowdScenario.Wire.Writer

/-!
# Failures of a compilation (`SPEC_FULL.md`, section 7)

Each failure names the place in the description that is to blame.
-/

namespace CrowdScenario

/-- Why a description cannot be compiled. -/
inductive CompileError where
  | unknownSectionType (name path : String)
  | unknownDistribution (kind path : String)
  | unknownEnumValue (value path : String)
  | unresolvedReference (expression path : String)
  | malformedReference (expression path : String)
  | cyclicReference (path : String)
  | unknownField (field owner : String)
  | missingField (path : String)
  | invalidValue (path expected found : String)
  | valueOutOfRange (path value detail : String)
  | encode (path : String) (cause : WireError)
  | ingest (path : String) (cause : IngestError)
deriving DecidableEq

namespace CompileError

def message : CompileError → String
  | unknownSectionType name path => s!"unknown section type '{name}' requested by {path}"
  | unknownDistribution kind path => s!"unknown distribution '{kind}' at {path}"
  | unknownEnumValue value path => s!"unknown value '{value}' for {path}"
  | unresolvedReference expression path =>
    s!"reference '{expression}' in {path} does not resolve"
  | malformedReference expression path => s!"malformed reference '{expression}' in {path}"
  | cyclicReference path => s!"cyclic reference while resolving {path}"
  | unknownField field owner => s!"unknown field '{field}' in {owner}"
  | missingField path => s!"missing required field {path}"
  | invalidValue path expected found =>
    s!"invalid value for {path}: expected {expected}, found {found}"
  | valueOutOfRange path value detail => s!"value {value} for {path} is out of range: {detail}"
  | encode path cause => s!"failed to encode {path}: {cause.message}"
  | ingest path cause => s!"failed to ingest scene for {path}: {cause.message}"

end CompileError

end CrowdScenario

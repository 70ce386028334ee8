import CrowdScenario.Value
import CrowdScenario.Wire.Coordinate

/-!
# Schemas (`SPEC_FULL.md`, section 4.1)

A schema lists the fields of a section of a description in the order in which they are encoded: what
each field is, what it defaults to and how it is written.
-/

namespace CrowdScenario

inductive Default where
  | int (n : Int64)
  | float (x : Binary64)
  | text (s : String)
  | bool (b : Bool)
  /-- The value that a reference leads to. -/
  | reference (expression : String)
deriving DecidableEq

def Default.literal? : Default → Option Value
  | int n => some (.int n)
  | float x => some (.float x)
  | text s => some (.text s)
  | bool b => some (.bool b)
  | reference _ => none

/-- A name that a choice may have, and its code. -/
structure Variant where
  name : String
  code : Byte
deriving DecidableEq

/-- Where the distribution in a field is written, and what its own fields fall back to first. -/
structure Slot where
  coordinate : Coordinate
  fallbacks : List (String × Default)
deriving DecidableEq

inductive FieldKind where
  | int
  | float
  | text
  | bool
  | choice (variants : List Variant)
  /-- A section of its own, with the named schema. -/
  | nested (schema : String)
  | distribution (slot : Slot)
  /-- The location of a scene, whose geometry is kept as a side value. -/
  | sceneFile
deriving DecidableEq

def FieldKind.isNested : FieldKind → Bool
  | nested _ => true
  | distribution _ => true
  | _ => false

inductive Emission where
  | skip
  /-- The code of a choice, before all records. -/
  | leadingByte
  | flag (element : Element)
  | float (element : Element)
  /-- Whole seconds, with a number of its own for no end. -/
  | seconds (element : Element)
  /-- The geometry of the scene, then its location. -/
  | sceneFile (element : Element)
deriving DecidableEq

/-- Whether a record is written, which needs a section to write it in. -/
def Emission.needsSection : Emission → Bool
  | skip => false
  | leadingByte => false
  | _ => true

structure Field where
  name : String
  kind : FieldKind
  default? : Option Default
  emission : Emission
deriving DecidableEq

def sceneFileSide : String := "scene_file"
def geometrySide : String := "geometry"

/-- The names of the side values that resolving a field leaves behind. -/
def FieldKind.sideNames : FieldKind → List String
  | sceneFile => [sceneFileSide, geometrySide]
  | _ => []

/-- The fields of a section, no two with one name. A schema with a field that is written names the
section to write it in. -/
structure Schema where
  name : String
  owner : Option Section
  fields : List Field
  names_nodup : (fields.map Field.name).Nodup
  owner_of_emission : owner = none → ∀ f ∈ fields, f.emission.needsSection = false

namespace Schema

def field? (s : Schema) (name : String) : Option Field := s.fields.find? fun f => f.name = name

def sideOwner? (s : Schema) (name : String) : Option Field :=
  s.fields.find? fun f => name ∈ f.kind.sideNames

def index? (s : Schema) (name : String) : Option Nat := s.fields.findIdx? fun f => f.name = name

end Schema

end CrowdScenario

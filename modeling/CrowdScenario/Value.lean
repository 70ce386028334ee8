import CrowdScenario.Decimal.Layout
import CrowdScenario.Wire.Geometry

/-!
# Values (`SPEC_FULL.md`, section 4.1)

What a field of a description resolves to.
-/

namespace CrowdScenario

inductive Value where
  | int (n : Int64)
  | float (x : Binary64)
  | text (s : String)
  | bool (b : Bool)
  /-- One of the names a field may have, with its code. -/
  | choice (name : String) (code : Byte)
  /-- The members of one geometry record. -/
  | tuple (members : List Int64)
  | geometry (records : List Geometry)
deriving DecidableEq

namespace Value

def float? : Value → Option Binary64
  | float x => some x
  | int n => some (Binary64.ofInt n.toInt)
  | _ => none

def text? : Value → Option String
  | text s => some s
  | _ => none

def bool? : Value → Option Bool
  | bool b => some b
  | _ => none

def code? : Value → Option Byte
  | choice _ code => some code
  | _ => none

def selectTag? (tag : String) : Value → Option Value
  | geometry records =>
    (records.find? fun g => g.tag.name = tag).map fun g => tuple g.members
  | _ => none

def display : Value → String
  | int n => toString n.toInt
  | float x => Decimal.display x
  | text s => "'" ++ s ++ "'"
  | bool b => if b then "true" else "false"
  | choice name _ => name
  | tuple members => Geometry.membersText members
  | geometry records => s!"<{records.length} geometry records>"

end Value

end CrowdScenario

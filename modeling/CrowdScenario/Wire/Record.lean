import CrowdScenario.Wire.Writer

/-!
# Decoded records (`SPEC_FULL.md`, section 12)

What a compiled document says, record by record. A `Record` is the meaning of an `Entry` at one of
the coordinates that have one.
-/

namespace CrowdScenario

inductive EndTime where
  | finite (seconds : UInt32)
  | infinite
deriving DecidableEq

namespace EndTime

/-- The number of seconds that stands for a simulation without an end. -/
def sentinel : UInt32 := 4294967295

def toSeconds : EndTime → UInt32
  | finite seconds => seconds
  | infinite => sentinel

def ofSeconds (n : UInt32) : EndTime := if n = sentinel then infinite else finite n

end EndTime

inductive Record where
  | geometry (value : Geometry)
  | sceneFile (name : String)
  | sceneScale (scale : Binary64)
  | endTime (value : EndTime)
  | tick (seconds : Binary64)
  | spawnRate (rate : Binary64)
  | distribution (c : Coordinate) (value : Distribution)
  | densityEnabled (enabled : Bool)
  | densityMinimum (threshold : Binary64)
  | densityMaximum (threshold : Binary64)
deriving DecidableEq

namespace Record

def toEntry : Record → Entry
  | geometry value => .geometry value
  | sceneFile name => .text .sceneFile name
  | sceneScale scale => .float .sceneScale scale
  | endTime value => .seconds .endTime value.toSeconds
  | tick seconds => .float .tick seconds
  | spawnRate rate => .float .spawnRate rate
  | distribution c value => .distribution c value
  | densityEnabled enabled => .flag .densityEnabled enabled
  | densityMinimum threshold => .float .densityMinimum threshold
  | densityMaximum threshold => .float .densityMaximum threshold

end Record

structure Document where
  simulation : Simulation
  records : List Record
deriving DecidableEq

namespace Document

def distribution? (d : Document) (c : Coordinate) : Option Distribution :=
  d.records.findSome? fun
    | .distribution c' value => if c' = c then some value else none
    | _ => none

/-- The geometry of the scene in order. -/
def geometry (d : Document) : List Geometry :=
  d.records.filterMap fun
    | .geometry g => some g
    | _ => none

end Document

end CrowdScenario

import CrowdScenario.Decimal.Layout
import CrowdScenario.Text.Quoted
import CrowdScenario.Wire.Record

/-!
# Listings (`SPEC_FULL.md`, section 13)

Documents as lines for a reader: one line for the kind of simulation and one for every record. File
names are quoted, so that no record takes two lines.
-/

namespace CrowdScenario

namespace Record

def distributionText (d : Distribution) : String :=
  d.kind.name ++ " " ++ Decimal.display d.first ++ " " ++ Decimal.display d.second

def line : Record → String
  | geometry g => "scene." ++ g.tag.name ++ " " ++ Geometry.membersText g.members
  | sceneFile name => "scene.file " ++ Text.quoted name
  | sceneScale scale => "scene.scale " ++ Decimal.display scale
  | endTime .infinite => "time.end_time infinite"
  | endTime (.finite seconds) => "time.end_time " ++ toString seconds.toNat ++ "s"
  | tick seconds => "time.tick " ++ Decimal.display seconds
  | spawnRate rate => "spawn.rate " ++ Decimal.display rate
  | distribution c value =>
    c.owner.name ++ "[0x" ++ Bytes.hexPadded 4 c.element.toNat ++ "] " ++ distributionText value
  | densityEnabled enabled => "density_map.enabled " ++ toString enabled
  | densityMinimum threshold => "density_map.min_threshold " ++ Decimal.display threshold
  | densityMaximum threshold => "density_map.max_threshold " ++ Decimal.display threshold

end Record

namespace Document

def lines (d : Document) : List String :=
  ("type " ++ d.simulation.name) :: d.records.map Record.line

def listing (d : Document) : String := String.join (d.lines.map (· ++ "\n"))

end Document

end CrowdScenario

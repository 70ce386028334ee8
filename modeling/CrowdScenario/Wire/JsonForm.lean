import CrowdScenario.Json.Printer
import CrowdScenario.Json.Typed
import CrowdScenario.Wire.Record

/-!
# JSON form of documents (`SPEC_FULL.md`, section 12)

Documents, records and their parts as JSON, and the parts that can be read back from it.
-/

namespace CrowdScenario

def Section.ofTitle? (n : String) : Option Section := Section.all.find? fun s => s.title = n

def Section.toJson (s : Section) : Json := .string s.title

def Section.ofWritten? (w : Json.Written) : Option Section := w.choice? Section.ofTitle?

def Simulation.toJson (s : Simulation) : Json := .string s.name

def Simulation.ofWritten? (w : Json.Written) : Option Simulation := w.choice? Simulation.ofName?

def DistributionKind.toJson (k : DistributionKind) : Json := .string k.name

def DistributionKind.ofWritten? (w : Json.Written) : Option DistributionKind :=
  w.choice? DistributionKind.ofName?

def GeometryTag.toJson (t : GeometryTag) : Json := .string t.name

def GeometryTag.ofWritten? (w : Json.Written) : Option GeometryTag := w.choice? GeometryTag.ofName?

namespace Geometry

def jsonMembers (g : Geometry) : Json.Members :=
  [("tag", g.tag.toJson), ("values", .array (g.members.map fun v => .integer v.toInt))]

def toJson (g : Geometry) : Json := .object g.jsonMembers

def ofWritten? (w : Json.Written) : Option Geometry := do
  let [some tag, some values] ← w.fields? ["tag", "values"] | none
  let tag ← GeometryTag.ofWritten? tag
  let values ← values.listOf? Json.Written.int64?
  return ⟨tag, values⟩

end Geometry

namespace Distribution

def kindMember : String := "distribution"

def toJson (d : Distribution) : Json :=
  .object [(kindMember, d.kind.toJson), (d.kind.firstName, .ofBinary64 d.first),
    (d.kind.secondName, .ofBinary64 d.second)]

def kind? : Json.Written → Option DistributionKind
  | .string (some name) => DistributionKind.ofName? name
  | _ => none

def withNumbers? [Json.DoubleReader] (kind : DistributionKind) :
    List (Option Json.Written) → Option Distribution
  | [some first, some second] => do return ⟨kind, ← first.float?, ← second.float?⟩
  | _ => none

/-- A distribution from a tree all of whose values exist: the kind as a member or as the first item,
then the numbers of that kind. -/
def ofWritten? [Json.DoubleReader] (w : Json.Written) : Option Distribution := do
  let _ ← w.value? Json.Written.deepest
  match w with
  | .array (tag :: numbers) =>
    let kind ← kind? tag
    withNumbers? kind (← (Json.Written.array numbers).fields? [kind.firstName, kind.secondName])
  | .object members =>
    let [some tag] ← w.fields? [kindMember] | none
    let kind ← kind? tag
    withNumbers? kind
      (← (Json.Written.object members).fields? [kind.firstName, kind.secondName])
  | _ => none

end Distribution

def EndTime.toJson : EndTime → Json
  | finite seconds => .object [("finite", .integer seconds.toNat)]
  | infinite => .string "infinite"

namespace Record

def kindName : Record → String
  | geometry _ => "geometry"
  | sceneFile _ => "scene_file"
  | sceneScale _ => "scene_scale"
  | endTime _ => "end_time"
  | tick _ => "tick"
  | spawnRate _ => "spawn_rate"
  | distribution _ _ => "distribution"
  | densityEnabled _ => "density_map_enabled"
  | densityMinimum _ => "density_map_min_threshold"
  | densityMaximum _ => "density_map_max_threshold"

def contentMembers : Record → Json.Members
  | geometry g => g.jsonMembers
  | sceneFile name => [("name", .string name)]
  | sceneScale scale => [("scale", .ofBinary64 scale)]
  | endTime value => [("end_time", value.toJson)]
  | tick seconds => [("tick", .ofBinary64 seconds)]
  | spawnRate rate => [("rate", .ofBinary64 rate)]
  | distribution c value =>
    [("section", c.owner.toJson), ("element", .integer c.element.toNat), ("value", value.toJson)]
  | densityEnabled enabled => [("enabled", .bool enabled)]
  | densityMinimum threshold => [("threshold", .ofBinary64 threshold)]
  | densityMaximum threshold => [("threshold", .ofBinary64 threshold)]

def toJson (r : Record) : Json := .object (("record", .string r.kindName) :: r.contentMembers)

end Record

def Document.toJson (d : Document) : Json :=
  .object [("simulation_type", d.simulation.toJson),
    ("records", .array (d.records.map Record.toJson))]

end CrowdScenario

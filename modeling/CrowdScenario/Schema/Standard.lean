import CrowdScenario.Schema.Builder
import CrowdScenario.Wire.Distribution
import CrowdScenario.Wire.Simulation

/-!
# The schemas of crowd simulations (`SPEC_FULL.md`, section 4.4)

The sections of a simulation description. All of them may be left out; the kind of simulation always
opens the document.
-/

namespace CrowdScenario

namespace Field

def silent (name : String) (kind : FieldKind) : Field := ⟨name, kind, none, .skip⟩

def nested (name schema : String) : Field := silent name (.nested schema)

def distribution (name : String) (c : Coordinate) : Field := silent name (.distribution ⟨c, []⟩)

def float (name : String) (element : Element) : Field := ⟨name, .float, none, .float element⟩

/-- A number of a distribution, zero unless given. -/
def parameter (name : String) : Field := ⟨name, .float, some (.float .zero), .skip⟩

end Field

namespace Schema

def rootName : String := "root"
def distributionName : String := "distribution"

def simulationVariants : List Variant := Simulation.all.map fun s => ⟨s.name, s.code⟩

def root : Schema where
  name := rootName
  owner := none
  fields := [
    ⟨"type", .choice simulationVariants, some (.text "flow"), .leadingByte⟩,
    .nested "scene" "scene",
    .nested "time" "time",
    .nested "spawn" "spawn",
    .nested "forces" "forces",
    .nested "fov" "fov",
    .nested "density_map" "density_map"]
  names_nodup := by decide
  owner_of_emission := by decide

def scene : Schema where
  name := "scene"
  owner := some .scene
  fields := [
    ⟨"file", .sceneFile, none, .sceneFile Coordinate.sceneFile.element⟩,
    .float "scale" Coordinate.sceneScale.element]
  names_nodup := by decide
  owner_of_emission := nofun

def time : Schema where
  name := "time"
  owner := some .time
  fields := [
    ⟨"end_time", .float, none, .seconds Coordinate.endTime.element⟩,
    .float "tick" Coordinate.tick.element]
  names_nodup := by decide
  owner_of_emission := nofun

/-- Arrivals are spread over the whole run unless told otherwise. -/
def arrivals : Slot where
  coordinate := .spawnTime
  fallbacks := [("from", .float .zero), ("to", .reference "ref:time.end_time")]

def spawn : Schema where
  name := "spawn"
  owner := some .spawn
  fields := [
    .float "rate" Coordinate.spawnRate.element,
    .silent "time" (.distribution arrivals)]
  names_nodup := by decide
  owner_of_emission := nofun

def forces : Schema where
  name := "forces"
  owner := some .forces
  fields := [.nested "target" "force.target", .nested "repulsion" "force.repulsion"]
  names_nodup := by decide
  owner_of_emission := nofun

def targetForce : Schema where
  name := "force.target"
  owner := some .forces
  fields := [.distribution "speed" .targetSpeed]
  names_nodup := by decide
  owner_of_emission := nofun

def repulsionForce : Schema where
  name := "force.repulsion"
  owner := some .forces
  fields := [.distribution "coeff" .repulsionCoefficient]
  names_nodup := by decide
  owner_of_emission := nofun

def fov : Schema where
  name := "fov"
  owner := some .fov
  fields := [.distribution "forward" .fovForward, .distribution "backward" .fovBackward]
  names_nodup := by decide
  owner_of_emission := nofun

def densityMap : Schema where
  name := "density_map"
  owner := some .densityMap
  fields := [
    ⟨"enabled", .bool, none, .flag Coordinate.densityEnabled.element⟩,
    .float "min_threshold" Coordinate.densityMinimum.element,
    .float "max_threshold" Coordinate.densityMaximum.element]
  names_nodup := by decide
  owner_of_emission := nofun

def kindField : String := "distribution"

/-- The numbers of every kind of distribution; the slot says where they are written. -/
def distribution : Schema where
  name := distributionName
  owner := none
  fields := .silent kindField .text ::
    DistributionKind.all.flatMap fun k => [.parameter k.firstName, .parameter k.secondName]
  names_nodup := by decide
  owner_of_emission := by decide

end Schema

def Registry.standard : Registry where
  schemas := [.root, .scene, .time, .spawn, .forces, .targetForce, .repulsionForce, .fov,
    .densityMap, .distribution]
  names_nodup := by decide

end CrowdScenario

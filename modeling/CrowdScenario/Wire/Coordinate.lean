import CrowdScenario.Bytes

/-!
# Record coordinates (`SPEC_FULL.md`, section 4.5)

A compiled document is a byte for the kind of simulation, followed by records. Every record starts
with its coordinate: the code of a section and, most significant byte first, the number of an
element in it. This file names the sections and the elements that have a meaning.
-/

namespace CrowdScenario

inductive Section where
  | scene
  | time
  | spawn
  | forces
  | fov
  | densityMap
deriving DecidableEq

namespace Section

def all : List Section := [scene, time, spawn, forces, fov, densityMap]

def code : Section → Byte
  | scene => 1
  | time => 2
  | spawn => 3
  | forces => 4
  | fov => 5
  | densityMap => 6

def ofCode? (c : Byte) : Option Section := all.find? fun s => s.code = c

def name : Section → String
  | scene => "scene"
  | time => "time"
  | spawn => "spawn"
  | forces => "forces"
  | fov => "fov"
  | densityMap => "density_map"

def title : Section → String
  | scene => "Scene"
  | time => "Time"
  | spawn => "Spawn"
  | forces => "Forces"
  | fov => "Fov"
  | densityMap => "DensityMap"

theorem ofCode?_code (s : Section) : ofCode? s.code = some s := by
  cases s <;> decide

theorem code_of_ofCode? {c : Byte} {s : Section} (h : ofCode? c = some s) : s.code = c := by
  have h1 := List.find?_some h
  simpa using h1

end Section

abbrev Element := UInt16

/-- Where a record belongs: a section and one of its elements. -/
structure Coordinate where
  owner : Section
  element : Element
deriving DecidableEq

namespace Coordinate

def toBytes (c : Coordinate) : Bytes := c.owner.code :: Bytes.bigEndian 2 c.element.toNat

@[simp] theorem length_toBytes (c : Coordinate) : c.toBytes.length = 3 := by simp [toBytes]

def wall : Coordinate := ⟨.scene, 0x01⟩
def spawnArea : Coordinate := ⟨.scene, 0x02⟩
def targetArea : Coordinate := ⟨.scene, 0x03⟩
def panicSource : Coordinate := ⟨.scene, 0x04⟩
def sceneWidth : Coordinate := ⟨.scene, 0x11⟩
def sceneHeight : Coordinate := ⟨.scene, 0x12⟩
def sceneScale : Coordinate := ⟨.scene, 0x13⟩
def sceneFile : Coordinate := ⟨.scene, 0xFF⟩

def endTime : Coordinate := ⟨.time, 0x01⟩
def tick : Coordinate := ⟨.time, 0x02⟩
def spawnRate : Coordinate := ⟨.spawn, 0x01⟩
def spawnTime : Coordinate := ⟨.spawn, 0x02⟩

/-- Elements of the forces carry the kind of force in their high byte. -/
def forceElement (force field : Byte) : Element := UInt16.ofNat (force.toNat * 256 + field.toNat)

def forceOf (e : Element) : Byte := UInt8.ofNat (e.toNat / 256)

def repulsion : Byte := 0x01
def target : Byte := 0x02

def repulsionCoefficient : Coordinate := ⟨.forces, forceElement repulsion 0x01⟩
def targetSpeed : Coordinate := ⟨.forces, forceElement target 0x01⟩
def fovForward : Coordinate := ⟨.fov, 0x01⟩
def fovBackward : Coordinate := ⟨.fov, 0x02⟩
def densityEnabled : Coordinate := ⟨.densityMap, 0x01⟩
def densityMinimum : Coordinate := ⟨.densityMap, 0x02⟩
def densityMaximum : Coordinate := ⟨.densityMap, 0x03⟩

def distributions : List Coordinate :=
  [spawnTime, repulsionCoefficient, targetSpeed, fovForward, fovBackward]

def holdsDistribution (c : Coordinate) : Bool := c ∈ distributions

end Coordinate

end CrowdScenario

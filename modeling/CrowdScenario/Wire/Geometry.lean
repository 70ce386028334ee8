import CrowdScenario.Wire.Coordinate

/-!
# Scene geometry (`SPEC_FULL.md`, sections 3 and 4.5)

A geometry record is a tag with a tuple of whole numbers. The tag fixes how many members the tuple
has on the wire and how many bytes each of them takes.
-/

namespace CrowdScenario

inductive MemberWidth where
  | one
  | two
deriving DecidableEq

namespace MemberWidth

def byteCount : MemberWidth → Nat
  | one => 1
  | two => 2

def max : MemberWidth → Int
  | one => 255
  | two => 65535

def title : MemberWidth → String
  | one => "U8"
  | two => "U16"

def holds (w : MemberWidth) (v : Int64) : Bool := 0 ≤ v.toInt ∧ v.toInt ≤ w.max

/-- The member nearest to a number that fits. -/
def clamp (w : MemberWidth) (v : Int64) : Int64 :=
  if v.toInt < 0 then 0 else if w.max < v.toInt then Int64.ofInt w.max else v

def toBytes (w : MemberWidth) (v : Int64) : Bytes := Bytes.bigEndian w.byteCount v.toInt.toNat

def ofBytes (bs : Bytes) : Int64 := Int64.ofNat (Bytes.ofBigEndian bs)

end MemberWidth

inductive GeometryTag where
  | width
  | height
  | panicSource
  | wall
  | spawnArea
  | targetArea
deriving DecidableEq

namespace GeometryTag

def all : List GeometryTag := [width, height, panicSource, wall, spawnArea, targetArea]

def name : GeometryTag → String
  | width => "width"
  | height => "height"
  | panicSource => "panic-source"
  | wall => "wall"
  | spawnArea => "spawn-area"
  | targetArea => "target-area"

def title : GeometryTag → String
  | width => "Width"
  | height => "Height"
  | panicSource => "PanicSource"
  | wall => "Wall"
  | spawnArea => "SpawnArea"
  | targetArea => "TargetArea"

def ofName? (n : String) : Option GeometryTag := all.find? fun t => t.name = n

def coordinate : GeometryTag → Coordinate
  | width => .sceneWidth
  | height => .sceneHeight
  | panicSource => .panicSource
  | wall => .wall
  | spawnArea => .spawnArea
  | targetArea => .targetArea

def ofElement? (e : Element) : Option GeometryTag := all.find? fun t => t.coordinate.element = e

def layout : GeometryTag → List MemberWidth
  | width | height => [.two]
  | panicSource => [.two, .two, .two, .one]
  | wall => [.two, .two, .two, .two]
  | spawnArea => [.two, .two, .two, .two, .one]
  | targetArea => [.two, .two, .two, .two, .one, .one]

def arity (t : GeometryTag) : Nat := t.layout.length

theorem ofElement?_element (t : GeometryTag) : ofElement? t.coordinate.element = some t := by
  cases t <;> decide

theorem coordinate_of_ofElement? {e : Element} {t : GeometryTag} (h : ofElement? e = some t) :
    t.coordinate = ⟨.scene, e⟩ := by
  have h1 := List.find?_some h
  simp only [decide_eq_true_eq] at h1
  subst h1
  cases t <;> rfl

end GeometryTag

structure Geometry where
  tag : GeometryTag
  members : List Int64
deriving DecidableEq

namespace Geometry

def width (n : Int64) : Geometry := ⟨.width, [n]⟩

def height (n : Int64) : Geometry := ⟨.height, [n]⟩

def wall (x0 y0 x1 y1 : Int64) : Geometry := ⟨.wall, [x0, y0, x1, y1]⟩

def panicSource (x y radius power : Int64) : Geometry := ⟨.panicSource, [x, y, radius, power]⟩

def spawnArea (x0 y0 x1 y1 id : Int64) : Geometry := ⟨.spawnArea, [x0, y0, x1, y1, id]⟩

/-- A place in an order of targets and whether it is the last, in one number that wraps around at
64 bits. -/
def packSequence (number : Int64) (last : Bool) : Int64 :=
  Int64.ofInt (2 * number.toInt + if last then 1 else 0)

def targetArea (x0 y0 x1 y1 id number : Int64) (last : Bool) : Geometry :=
  ⟨.targetArea, [x0, y0, x1, y1, id, packSequence number last]⟩

def clamped (g : Geometry) : Geometry :=
  ⟨g.tag, List.zipWith MemberWidth.clamp g.tag.layout g.members⟩

/-- The place in the order of targets and whether it is the last, as read from a target area whose
packed member takes one byte. -/
def targetSequence? (g : Geometry) : Option (Nat × Bool) :=
  if g.tag = .targetArea then
    g.members[5]?.map fun packed =>
      let byte := (packed.toInt % 256).toNat
      (byte / 2, byte % 2 = 1)
  else none

def membersText (members : List Int64) : String :=
  "[" ++ String.intercalate ", " (members.map fun v => toString v.toInt) ++ "]"

def memberBytes : List MemberWidth → List Int64 → Bytes
  | w :: ws, v :: vs => w.toBytes v ++ memberBytes ws vs
  | _, _ => []

end Geometry

end CrowdScenario

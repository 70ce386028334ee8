import CrowdScenario.Scene.Ingest
import CrowdScenario.Text.Blank
import CrowdScenario.Xml.Reader

/-!
# Geometry in scene documents (`SPEC_FULL.md`, section 11)

A scene is an SVG document in which circles, lines and rectangles carry a class that says what they
stand for. The first `svg` element gives the dimensions. Records are grouped by what they describe
and keep the order of the document within a group.
-/

namespace CrowdScenario.Scene

open Xml (Attribute Tag)

/-- One more decimal digit, without going past the largest 64-bit integer. -/
def pushDigit (n : Int) (c : Char) : Int :=
  min Binary64.largestInt64 (min Binary64.largestInt64 (10 * n) + Text.digitValue c)

/-- The whole number at the start of a text: blanks, an optional sign and the digits up to the first
other character. No digits make zero, and too many stop at the largest 64-bit integer. -/
def leadingInteger (cs : List Char) : Int :=
  let (negative, rest) := Text.splitSign (Text.trimStart cs)
  let n := (rest.takeWhile Char.isDigit).foldl pushDigit 0
  if negative then -n else n

def number (attributes : List Attribute) (name : String) : Int :=
  match attributes.lookup name with
  | some value => leadingInteger value.toList
  | none => 0

def member (attributes : List Attribute) (name : String) : Int64 :=
  Int64.ofInt (number attributes name)

/-- A coordinate and an extent added up, if the sum is a 64-bit integer. -/
def farEdge (attributes : List Attribute) (origin extent : String) : Except SceneDefect Int64 :=
  let sum := number attributes origin + number attributes extent
  if Binary64.smallestInt64 ≤ sum ∧ sum ≤ Binary64.largestInt64 then .ok (Int64.ofInt sum)
  else .error (.overflow origin extent)

structure Corners where
  x0 : Int64
  y0 : Int64
  x1 : Int64
  y1 : Int64
deriving DecidableEq

def rectangleCorners (attributes : List Attribute) : Except SceneDefect Corners := do
  let x1 ← farEdge attributes "x" "width"
  let y1 ← farEdge attributes "y" "height"
  return ⟨member attributes "x", member attributes "y", x1, y1⟩

def classAttribute : String := "x_csim_class"

/-- The record of an element with the given local name and attributes, if it is a shape that stands
for something. -/
def shape? (name : String) (attributes : List Attribute) : Except SceneDefect (Option Geometry) :=
  let n := member attributes
  match name, attributes.lookup classAttribute with
  | "circle", some "panic-source" =>
    .ok (some (.panicSource (n "cx") (n "cy") (n "r") (n "x_csim_power")))
  | "line", some "wall" => .ok (some (.wall (n "x1") (n "y1") (n "x2") (n "y2")))
  | "rect", some "spawn-area" => do
    let c ← rectangleCorners attributes
    return some (.spawnArea c.x0 c.y0 c.x1 c.y1 (n "x_csim_id"))
  | "rect", some "target-area" => do
    let c ← rectangleCorners attributes
    let last := (attributes.lookup "x_csim_last").any fun value =>
      Text.trim value.toList = "true".toList
    return some (.targetArea c.x0 c.y0 c.x1 c.y1 (n "x_csim_id") (n "x_csim_seq_no") last)
  | _, _ => .ok none

/-- The records found so far in the order of the document, and the dimensions once an `svg` element
has been seen. -/
structure Finds where
  dimensions : Option (Int64 × Int64)
  shapes : List Geometry

namespace Finds

def start : Finds := ⟨none, []⟩

def visit (f : Finds) (t : Tag) : Except SceneDefect Finds :=
  match t.attributes? with
  | none => .error .markup
  | some attributes =>
    if t.localName = "svg" ∧ f.dimensions = none then
      .ok { f with dimensions := some (member attributes "width", member attributes "height") }
    else
      match shape? t.localName attributes with
      | .error e => .error e
      | .ok none => .ok f
      | .ok (some g) => .ok { f with shapes := g :: f.shapes }

def group (f : Finds) (tag : GeometryTag) : List Geometry :=
  (f.shapes.filter (·.tag = tag)).reverse

/-- The order of the groups behind the dimensions. -/
def groupOrder : List GeometryTag := [.panicSource, .wall, .spawnArea, .targetArea]

/-- The records of a scene whose dimensions are known. -/
def records? (f : Finds) : Option (List Geometry) :=
  f.dimensions.map fun (width, height) =>
    .width width :: .height height :: groupOrder.flatMap f.group

end Finds

def ofReading (path : String) (r : Xml.Reading) : Except IngestError (List Geometry) :=
  match r.tags.foldlM Finds.visit Finds.start with
  | .error e => .error (.malformed path e)
  | .ok f =>
    if r.isDefective then .error (.malformed path .markup)
    else
      match f.records? with
      | some records => .ok records
      | none => .error (.missingRoot path)

/-- The geometry in the text of a document; the path only serves messages. -/
def parse (path text : String) : Except IngestError (List Geometry) :=
  ofReading path (Xml.read text.toList)

def ofFiles (read : FileReader) : Ingestor := fun path =>
  match FileReader.text read path with
  | .error e => .error (.unreadable path e)
  | .ok text => parse path text

end CrowdScenario.Scene

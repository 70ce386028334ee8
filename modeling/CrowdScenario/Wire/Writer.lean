import CrowdScenario.Wire.Distribution
import CrowdScenario.Wire.Geometry
import CrowdScenario.Wire.Simulation

/-!
# Writing records (`SPEC_FULL.md`, section 4.5)

An `Entry` is a record to be written. Most of them always can be; a text may be too long for its
length field, and a geometry tuple may have the wrong number of members or members that do not fit.
`Entry.toBytes?` is the record as a whole, `Writing.record` writes it piece by piece.
-/

namespace CrowdScenario

inductive WireError where
  | textTooLong (length : Nat)
  | arityMismatch (tag : GeometryTag) (expected found : Nat)
  | outOfRange (tag : GeometryTag) (index : Nat) (value : Int64) (width : MemberWidth)
deriving DecidableEq

namespace WireError

def message : WireError → String
  | textTooLong length => s!"text of {length} bytes exceeds the u16 length prefix"
  | arityMismatch tag expected found =>
    s!"{tag.title} expects {expected} values, found {found}"
  | outOfRange tag index value width =>
    s!"{tag.title} value #{index} = {value.toInt} does not fit in {width.title}"

end WireError

def longestText : Nat := 65535

def textBytes? (s : String) : Except WireError Bytes :=
  let bytes := Bytes.ofText s
  let length := bytes.length
  if length ≤ longestText then .ok (Bytes.bigEndian 2 length ++ bytes)
  else .error (.textTooLong length)

/-- The first member, counted from `index`, that does not fit its width. -/
def firstMisfit? : Nat → List MemberWidth → List Int64 → Option (Nat × Int64 × MemberWidth)
  | index, w :: ws, v :: vs => if w.holds v then firstMisfit? (index + 1) ws vs
    else some (index, v, w)
  | _, _, _ => none

/-- The coordinate and the members, provided that their number and sizes fit the tag. -/
def Geometry.toBytes? (g : Geometry) : Except WireError Bytes :=
  if g.members.length = g.tag.arity then
    match firstMisfit? 0 g.tag.layout g.members with
    | some (index, value, width) => .error (.outOfRange g.tag index value width)
    | none => .ok (g.tag.coordinate.toBytes ++ Geometry.memberBytes g.tag.layout g.members)
  else .error (.arityMismatch g.tag g.tag.arity g.members.length)

inductive Entry where
  | flag (c : Coordinate) (value : Bool)
  | float (c : Coordinate) (value : Binary64)
  | seconds (c : Coordinate) (value : UInt32)
  | text (c : Coordinate) (value : String)
  | distribution (c : Coordinate) (value : Distribution)
  | geometry (value : Geometry)
deriving DecidableEq

namespace Entry

/-- The bytes of a record: whole numbers most significant byte first, doubles least significant
byte first. -/
def toBytes? : Entry → Except WireError Bytes
  | flag c value => .ok (c.toBytes ++ [if value then 1 else 0])
  | float c value => .ok (c.toBytes ++ value.toBytes)
  | seconds c value => .ok (c.toBytes ++ Bytes.bigEndian 4 value.toNat)
  | text c value => (textBytes? value).map (c.toBytes ++ ·)
  | distribution c value => .ok (c.toBytes ++ value.toBytes)
  | geometry value => value.toBytes?

end Entry

/-- The bytes written so far and the number of records begun. -/
structure Writer where
  bytes : Bytes
  recordCount : Nat
deriving DecidableEq

namespace Writer

def empty : Writer := ⟨[], 0⟩

/-- Bytes that belong to no record or to the one under way. -/
def append (w : Writer) (bs : Bytes) : Writer := ⟨w.bytes ++ bs, w.recordCount⟩

def simulation (w : Writer) (s : Simulation) : Writer := w.append [s.code]

def beginRecord (w : Writer) (c : Coordinate) : Writer := ⟨w.bytes ++ c.toBytes, w.recordCount + 1⟩

def byte (w : Writer) (n : Byte) : Writer := w.append [n]

def word16 (w : Writer) (n : UInt16) : Writer := w.append (Bytes.bigEndian 2 n.toNat)

def word32 (w : Writer) (n : UInt32) : Writer := w.append (Bytes.bigEndian 4 n.toNat)

def float (w : Writer) (x : Binary64) : Writer := w.append x.toBytes

def member (w : Writer) (v : Int64) : MemberWidth → Writer
  | .one => w.byte v.toUInt64.toUInt8
  | .two => w.word16 v.toUInt64.toUInt16

def members (w : Writer) : List MemberWidth → List Int64 → Writer
  | width :: ws, v :: vs => (w.member v width).members ws vs
  | _, _ => w

end Writer

/-- Writing that may be refused on the way. What was written before a refusal stays written. -/
abbrev Writing := ExceptT WireError (StateM Writer)

namespace Writing

def checkText (s : String) : Writing Unit :=
  if longestText < (Bytes.ofText s).length then throw (.textTooLong (Bytes.ofText s).length)
  else pure ()

def text (s : String) : Writing Unit := do
  checkText s
  modify (·.word16 (UInt16.ofNat (Bytes.ofText s).length))
  modify (·.append (Bytes.ofText s))

/-- Refuses a geometry tuple whose number of members or one of whose members does not fit. -/
def checkGeometry (g : Geometry) : Writing Unit :=
  if g.members.length = g.tag.arity then
    match firstMisfit? 0 g.tag.layout g.members with
    | some (index, value, width) => throw (.outOfRange g.tag index value width)
    | none => pure ()
  else throw (.arityMismatch g.tag g.tag.arity g.members.length)

def record : Entry → Writing Unit
  | .flag c value => do
    modify (·.beginRecord c)
    modify (·.byte (if value then 1 else 0))
  | .float c value => do
    modify (·.beginRecord c)
    modify (·.float value)
  | .seconds c value => do
    modify (·.beginRecord c)
    modify (·.word32 value)
  | .text c value => do
    checkText value
    modify (·.beginRecord c)
    text value
  | .distribution c value => do
    modify (·.beginRecord c)
    modify (·.byte value.kind.code)
    modify (·.float value.first)
    modify (·.float value.second)
  | .geometry value => do
    checkGeometry value
    modify (·.beginRecord value.tag.coordinate)
    modify (·.members value.tag.layout value.members)

def perform {α : Type} (step : Writing α) (w : Writer) : Except WireError α × Writer :=
  StateT.run (ExceptT.run step) w

end Writing

def Writer.put (w : Writer) (e : Entry) : Except WireError Writer :=
  match (Writing.record e).perform w with
  | (.ok (), after) => .ok after
  | (.error cause, _) => .error cause

end CrowdScenario

import CrowdScenario.Binary64.Integral
import CrowdScenario.Resolution
import CrowdScenario.Wire.Record

/-!
# Encoding (`SPEC_FULL.md`, sections 3 and 4.5)

The tree is encoded from the root on: for every section first the fields that are written, then the
sections below it, all in the order of the schemas. A distribution is written as a whole. Fields are
resolved when their turn comes, and all records go to one writer.
-/

namespace CrowdScenario

/-- An encoding under way, which resolves what it needs and writes as it goes. -/
abbrev Encoder := StateT Writer Resolution

namespace Encoding

/-- The whole seconds of an end time: infinity has the number of its own, all else must round to a
number below it. -/
def endTime? (x : Binary64) : Option EndTime :=
  if x = .infinity false then some .infinite
  else if x.isFinite ∧ 0 ≤ x.roundHalfAway ∧ x.roundHalfAway < EndTime.sentinel.toNat then
    some (.finite (UInt32.ofNat x.roundHalfAway.toNat))
  else none

def secondsDetail : String := "seconds must round into 0..4294967295 or be infinity"

/-- The geometry of a scene, clamped if the settings say so, then its location. -/
def sceneEntries (settings : Settings) (c : Coordinate) (id : FieldId) (file : String)
    (records : List Geometry) : List (String × Entry) :=
  records.map (fun g =>
    (joinPath id.owner.path geometrySide,
      .geometry (if settings.clampCoordinates then g.clamped else g)))
    ++ [(id.path, .text c file)]

def wrongKind (path expected : String) (v : Value) : CompileError :=
  .invalidValue path expected v.display

def require {α : Type} (path expected : String) (part : Value → Option α) (v : Value) :
    Resolution α :=
  match part v with
  | some a => pure a
  | none => throw (wrongKind path expected v)

/-- The entries of a written field with its value, with the paths to blame, in a section that has
records. -/
def entries (ctx : Context) (owner : Section) (id : FieldId) (v : Value) :
    Emission → Resolution (List (String × Entry))
  | .skip => pure []
  | .leadingByte => pure []
  | .flag element => do
    let b ← require id.path "boolean" Value.bool? v
    return [(id.path, .flag ⟨owner, element⟩ b)]
  | .float element => do
    let x ← require id.path "number" Value.float? v
    return [(id.path, .float ⟨owner, element⟩ x)]
  | .seconds element => do
    let x ← require id.path "number" Value.float? v
    match endTime? x with
    | some t => return [(id.path, .seconds ⟨owner, element⟩ t.toSeconds)]
    | none => throw (.valueOutOfRange id.path (Decimal.display x) secondsDetail)
  | .sceneFile element => do
    let file ← require id.path "string" Value.text? v
    let records := match (← get).side? id.owner geometrySide with
      | some (.geometry records) => records
      | _ => []
    return sceneEntries ctx.settings ⟨owner, element⟩ id file records

def put (path : String) (e : Entry) : Encoder Unit := fun w =>
  match w.put e with
  | .ok after => pure ((), after)
  | .error cause => throw (.encode path cause)

def putAll : List (String × Entry) → Encoder Unit
  | [] => pure ()
  | (path, e) :: rest => do
    put path e
    putAll rest

def writeValue (ctx : Context) (schema : Schema) (f : Field) (id : FieldId) (v : Value) :
    Encoder Unit := do
  if f.emission = .leadingByte then
    let code ← require id.path "enum" Value.code? v
    modify (·.byte code)
  else
    match schema.owner with
    | none => throw (.invalidValue id.path "section with a wire id" schema.name)
    | some owner => do
      let list ← entries ctx owner id v f.emission
      putAll list

def encodeField (ctx : Context) (root : Node) (here : Address) (schema : Schema) (f : Field) :
    Encoder Unit := do
  let v ← Resolution.resolve ctx root here schema f.name
  writeValue ctx schema f ⟨here, f.name⟩ v

def encodeFields (ctx : Context) (root : Node) (here : Address) (schema : Schema) :
    List Field → Encoder Unit
  | [] => pure ()
  | f :: rest => do
    if f.emission ≠ .skip then encodeField ctx root here schema f
    encodeFields ctx root here schema rest

def encodeDistribution (ctx : Context) (root : Node) (here : Address) (schema : Schema)
    (slot : Slot) : Encoder Unit := do
  let d ← Resolution.distribution ctx root here schema
  put here.path (.distribution slot.coordinate d)

mutual

def encodeNode (ctx : Context) (root : Node) (here : Address) : Node → Encoder Unit
  | ⟨schema, some slot, _, _⟩ => encodeDistribution ctx root here schema slot
  | ⟨schema, none, _, children⟩ => do
    encodeFields ctx root here schema schema.fields
    encodeChildren ctx root here children

def encodeChildren (ctx : Context) (root : Node) (here : Address) :
    List (String × Node) → Encoder Unit
  | [] => pure ()
  | (name, n) :: rest => do
    encodeNode ctx root (here ++ [name]) n
    encodeChildren ctx root here rest

end

end Encoding

end CrowdScenario

import CrowdScenario.Schema.Standard
import CrowdScenario.Sources

/-!
# Resolution (`SPEC_FULL.md`, sections 4.1 to 4.3)

Fields are resolved when they are asked for, and each at most once: a `Memo` keeps the values found
so far, the side values of scenes, the fields that are under way, and the ingestions that were asked
for. A field whose resolution comes back to itself while it is under way has no value.
Resolution ends because the fields that may still be started get fewer with every step into another
field.
-/

namespace CrowdScenario

/-- A scene that was asked for: the field with its name, the location, and whether there was one. -/
structure Ingestion where
  field : FieldId
  location : String
  succeeded : Bool
deriving DecidableEq

/-- What earlier resolutions have left behind, newest first, and the fields that are under way. -/
structure Memo where
  values : List (FieldId × Value)
  sides : List ((Address × String) × Value)
  ingested : List Ingestion
  underway : List FieldId

namespace Memo

def empty : Memo := ⟨[], [], [], []⟩

def value? (m : Memo) (id : FieldId) : Option Value := m.values.lookup id

/-- The side value under a name in a section, as left by the latest scene of the section. -/
def side? (m : Memo) (here : Address) (name : String) : Option Value := m.sides.lookup (here, name)

def remember (m : Memo) (id : FieldId) (v : Value) : Memo :=
  { m with values := (id, v) :: m.values }

def keepSide (m : Memo) (here : Address) (name : String) (v : Value) : Memo :=
  { m with sides := ((here, name), v) :: m.sides }

def start (m : Memo) (id : FieldId) : Memo := { m with underway := id :: m.underway }

def stop (m : Memo) (id : FieldId) : Memo := { m with underway := m.underway.filter (· ≠ id) }

def note (m : Memo) (i : Ingestion) : Memo := { m with ingested := i :: m.ingested }

def ingestions (m : Memo) : List String := m.ingested.reverse.map (·.location)

end Memo

/-- A computation that may fail, with a memory that is kept when it does. -/
abbrev Resolution := ExceptT CompileError (StateM Memo)

namespace Resolution

def ofExcept {α : Type} : Except CompileError α → Resolution α
  | .ok a => pure a
  | .error e => throw e

def readTarget (read : FieldId → Resolution Value) (t : Node.Target) : Resolution (Option Value) :=
  do
    let v ← read t.field
    match t.side? with
    | none => return v.select? t.selection
    | some name =>
      let memo ← get
      return (memo.side? t.field.owner name).bind fun side => side.select? t.selection

/-- The value that a reference leads to. The path of the field with the reference serves
messages. -/
def follow (root : Node) (read : FieldId → Resolution Value) (expression path : String) :
    Resolution (Option Value) :=
  match Reference.parse? expression with
  | none => throw (.malformedReference expression path)
  | some reference =>
    match root.locate? [] reference with
    | none => return none
    | some t => readTarget read t

def firstInput (root : Node) (read : FieldId → Resolution Value) (path : String) :
    List Source → Resolution (Option Input)
  | [] => return none
  | .given i :: _ => return some i
  | .reference expression required :: rest => do
    match ← follow root read expression path with
    | some v => return some (.value v)
    | none =>
      if required then throw (.unresolvedReference expression path)
      else firstInput root read path rest

/-- The location of a scene, after its geometry has been put beside it. -/
def ingestScene (ctx : Context) (id : FieldId) (file : String) : Resolution Value := do
  let location := ctx.scenePath file
  let result := ctx.ingest location
  modify (·.note ⟨id, location, result.isOk⟩)
  match result with
  | .error e => throw (.ingest id.path e)
  | .ok records =>
    modify fun m =>
      (m.keepSide id.owner sceneFileSide (.text file)).keepSide id.owner geometrySide
        (.geometry records)
    return .text file

/-- The value of a field of a section from its sources; other fields are read as given. -/
def evaluate (ctx : Context) (root : Node) (read : FieldId → Resolution Value) (n : Node)
    (id : FieldId) (f : Field) : Resolution Value := do
  let input? ← firstInput root read id.path (n.sources ctx.settings.strictReferences f)
  match f.kind with
  | .sceneFile => ofExcept (sceneFileOf id.path input?) >>= ingestScene ctx id
  | kind => ofExcept (coerce kind id.path input?)

def others (free : List FieldId) (id : FieldId) : List FieldId := free.filter (· ≠ id)

theorem length_others_lt {free : List FieldId} {id : FieldId} (h : id ∈ free) :
    (others free id).length < free.length :=
  List.length_filter_lt_length_iff_exists.mpr ⟨id, h, by simp⟩

/-- How a step ends, which may be a failure that others can go on from. -/
def outcome {α : Type} (step : Resolution α) : Resolution (Except CompileError α) :=
  ExceptT.lift step.run

/-- Runs the resolution of a field with the mark that it is under way. The mark goes whether there
is a value or not; only a value is remembered. -/
def whileUnderway (id : FieldId) (step : Resolution Value) : Resolution Value := do
  modify (·.start id)
  let result ← outcome step
  modify (·.stop id)
  match result with
  | .ok v =>
    modify (·.remember id v)
    return v
  | .error e => throw e

/-- The value of a field, given the fields that may still be started. -/
def resolveAmong (ctx : Context) (root : Node) (free : List FieldId) (id : FieldId) :
    Resolution Value := do
  let memo ← get
  match memo.value? id with
  | some v => return v
  | none =>
    if id ∈ memo.underway then throw (.cyclicReference id.path)
    else if _h : id ∈ free then
      match root.field? id with
      | none => throw (.unknownField id.name id.owner.path)
      | some (n, f) =>
        whileUnderway id
          (evaluate ctx root (resolveAmong ctx root (others free id)) n id f)
    else throw (.unknownField id.name id.owner.path)
termination_by free.length
decreasing_by exact length_others_lt _h

def resolveField (ctx : Context) (root : Node) (id : FieldId) : Resolution Value :=
  resolveAmong ctx root (root.scalars []) id

def resolve (ctx : Context) (root : Node) (here : Address) (schema : Schema) (name : String) :
    Resolution Value :=
  match schema.field? name with
  | none => throw (.unknownField name (Node.displayPath schema here.path))
  | some f =>
    if f.kind.isNested then
      throw (.invalidValue (joinPath here.path name) "scalar field" "nested section")
    else resolveField ctx root ⟨here, name⟩

/-- The value of a field or a side value in a section at an address, if the name is one. -/
def lookup (ctx : Context) (root : Node) (here : Address) (schema : Schema) (name : String) :
    Resolution (Option Value) :=
  match Node.target? schema here name [] with
  | none => return none
  | some t => readTarget (resolveField ctx root) t

/-- Where references stand that no field holds. -/
def documentPath : String := "<document>"

def resolveReference (ctx : Context) (root : Node) (expression : String) :
    Resolution (Option Value) :=
  follow root (resolveField ctx root) expression documentPath

def requireReference (ctx : Context) (root : Node) (expression : String) : Resolution Value := do
  match ← resolveReference ctx root expression with
  | some v => return v
  | none => throw (.unresolvedReference expression documentPath)

def distributionKind (ctx : Context) (root : Node) (here : Address) (schema : Schema) :
    Resolution DistributionKind := do
  let v ← resolve ctx root here schema Schema.kindField
  let name := v.text?.getD ""
  match DistributionKind.ofName? name with
  | some kind => return kind
  | none => throw (.unknownDistribution name here.path)

def distributionNumber (ctx : Context) (root : Node) (here : Address) (schema : Schema)
    (name : String) : Resolution Binary64 := do
  let v ← resolve ctx root here schema name
  match v.float? with
  | some x => return x
  | none => throw (.invalidValue (joinPath here.path name) "number" v.display)

def distribution (ctx : Context) (root : Node) (here : Address) (schema : Schema) :
    Resolution Distribution := do
  let kind ← distributionKind ctx root here schema
  let first ← distributionNumber ctx root here schema kind.firstName
  let second ← distributionNumber ctx root here schema kind.secondName
  return ⟨kind, first, second⟩

end Resolution

end CrowdScenario

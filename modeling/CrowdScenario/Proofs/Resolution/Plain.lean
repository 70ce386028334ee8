import CrowdScenario.Compilation

/-!
# Evaluation without memory

The same questions as in `Resolution`, answered anew every time. An `Inquiry` asks for fields and
keeps nothing; `Plain.field` answers it by evaluating each field from its sources whenever it is asked
for. All it knows is which fields it is in the middle of, so that a field that comes back to itself
has no value.
-/

namespace CrowdScenario

structure Evaluated where
  value : Value
  sides : List (String × Value)

abbrev Reader := FieldId → Except CompileError Evaluated

/-- A computation that may fail and asks for fields on the way. -/
abbrev Inquiry := ReaderT Reader (Except CompileError)

namespace Plain

def ask (id : FieldId) : Inquiry Evaluated := fun read => read id

def ofExcept {α : Type} (result : Except CompileError α) : Inquiry α := fun _ => result

def readTarget (t : Node.Target) : Inquiry (Option Value) := do
  let e ← ask t.field
  match t.side? with
  | none => return e.value.select? t.selection
  | some name => return (e.sides.lookup name).bind fun side => side.select? t.selection

def follow (root : Node) (expression path : String) : Inquiry (Option Value) :=
  match Reference.parse? expression with
  | none => ofExcept (.error (.malformedReference expression path))
  | some reference =>
    match root.locate? [] reference with
    | none => return none
    | some t => readTarget t

def firstInput (root : Node) (path : String) : List Source → Inquiry (Option Input)
  | [] => return none
  | .given i :: _ => return some i
  | .reference expression required :: rest => do
    match ← follow root expression path with
    | some v => return some (.value v)
    | none =>
      if required then ofExcept (.error (.unresolvedReference expression path))
      else firstInput root path rest

def ingestScene (ctx : Context) (id : FieldId) (file : String) : Except CompileError Evaluated :=
  match ctx.ingest (ctx.scenePath file) with
  | .error e => .error (.ingest id.path e)
  | .ok records =>
    .ok ⟨.text file, [(geometrySide, .geometry records), (sceneFileSide, .text file)]⟩

def finish (ctx : Context) (id : FieldId) (kind : FieldKind) (input? : Option Input) :
    Except CompileError Evaluated :=
  match kind with
  | .sceneFile => sceneFileOf id.path input? >>= ingestScene ctx id
  | kind => (coerce kind id.path input?).map (⟨·, []⟩)

def evaluate (ctx : Context) (root n : Node) (id : FieldId) (f : Field) : Inquiry Evaluated := do
  let input? ← firstInput root id.path (n.sources ctx.settings.strictReferences f)
  ofExcept (finish ctx id f.kind input?)

/-- The fields that are left once some are under way. -/
def left (root : Node) (busy : List FieldId) : List FieldId :=
  (root.scalars []).filter (· ∉ busy)

theorem length_left_lt {root : Node} {busy : List FieldId} {id : FieldId}
    (hid : id ∈ root.scalars []) (hbusy : id ∉ busy) :
    (left root (id :: busy)).length < (left root busy).length := by
  have hfilter : left root (id :: busy) = (left root busy).filter (· ≠ id) := by
    simp only [left, List.filter_filter]
    refine List.filter_congr fun x _ => ?_
    simp [not_or]
  rw [hfilter]
  refine List.length_filter_lt_length_iff_exists.mpr ⟨id, ?_, by simp⟩
  exact List.mem_filter.mpr ⟨hid, by simpa using hbusy⟩

/-- A field, evaluated from its sources while some are under way. -/
def field (ctx : Context) (root : Node) (busy : List FieldId) : Reader := fun id =>
  if _hbusy : id ∈ busy then .error (.cyclicReference id.path)
  else if _hid : id ∈ root.scalars [] then
    match root.field? id with
    | none => .error (.unknownField id.name id.owner.path)
    | some (n, f) => evaluate ctx root n id f (field ctx root (id :: busy))
  else .error (.unknownField id.name id.owner.path)
termination_by (left root busy).length
decreasing_by exact length_left_lt _hid _hbusy

def resolve (here : Address) (schema : Schema) (name : String) : Inquiry Evaluated :=
  match schema.field? name with
  | none => ofExcept (.error (.unknownField name (Node.displayPath schema here.path)))
  | some f =>
    if f.kind.isNested then
      ofExcept (.error (.invalidValue (joinPath here.path name) "scalar field" "nested section"))
    else ask ⟨here, name⟩

def lookup (here : Address) (schema : Schema) (name : String) : Inquiry (Option Value) :=
  match Node.target? schema here name [] with
  | none => return none
  | some t => readTarget t

def requireReference (root : Node) (expression : String) : Inquiry Value := do
  match ← follow root expression Resolution.documentPath with
  | some v => return v
  | none => ofExcept (.error (.unresolvedReference expression Resolution.documentPath))

def distributionKind (here : Address) (schema : Schema) : Inquiry DistributionKind := do
  let e ← resolve here schema Schema.kindField
  let name := e.value.text?.getD ""
  match DistributionKind.ofName? name with
  | some kind => return kind
  | none => ofExcept (.error (.unknownDistribution name here.path))

def distributionNumber (here : Address) (schema : Schema) (name : String) : Inquiry Binary64 := do
  let e ← resolve here schema name
  match e.value.float? with
  | some x => return x
  | none =>
    ofExcept (.error (.invalidValue (joinPath here.path name) "number" e.value.display))

def distribution (here : Address) (schema : Schema) : Inquiry Distribution := do
  let kind ← distributionKind here schema
  let first ← distributionNumber here schema kind.firstName
  let second ← distributionNumber here schema kind.secondName
  return ⟨kind, first, second⟩

def require {α : Type} (path expected : String) (part : Value → Option α) (v : Value) :
    Except CompileError α :=
  match part v with
  | some a => .ok a
  | none => .error (Encoding.wrongKind path expected v)

def records (e : Evaluated) : List Geometry :=
  match e.sides.lookup geometrySide with
  | some (.geometry records) => records
  | _ => []

def entries (ctx : Context) (owner : Section) (id : FieldId) (e : Evaluated) :
    Emission → Except CompileError (List (String × Entry))
  | .skip => .ok []
  | .leadingByte => .ok []
  | .flag element => do
    let b ← require id.path "boolean" Value.bool? e.value
    return [(id.path, .flag ⟨owner, element⟩ b)]
  | .float element => do
    let x ← require id.path "number" Value.float? e.value
    return [(id.path, .float ⟨owner, element⟩ x)]
  | .seconds element => do
    let x ← require id.path "number" Value.float? e.value
    match Encoding.endTime? x with
    | some t => return [(id.path, .seconds ⟨owner, element⟩ t.toSeconds)]
    | none =>
      .error (.valueOutOfRange id.path (Decimal.display x) Encoding.secondsDetail)
  | .sceneFile element => do
    let file ← require id.path "string" Value.text? e.value
    return Encoding.sceneEntries ctx.settings ⟨owner, element⟩ id file (records e)

def put (path : String) (e : Entry) (w : Writer) : Except CompileError Writer :=
  match w.put e with
  | .ok after => .ok after
  | .error cause => .error (.encode path cause)

def putAll : List (String × Entry) → Writer → Except CompileError Writer
  | [], w => .ok w
  | (path, e) :: rest, w => put path e w >>= putAll rest

def writeValue (ctx : Context) (schema : Schema) (f : Field) (id : FieldId) (e : Evaluated)
    (w : Writer) : Except CompileError Writer :=
  if f.emission = .leadingByte then (require id.path "enum" Value.code? e.value).map w.byte
  else
    match schema.owner with
    | none => .error (.invalidValue id.path "section with a wire id" schema.name)
    | some owner => entries ctx owner id e f.emission >>= fun list => putAll list w

def encodeField (ctx : Context) (here : Address) (schema : Schema) (f : Field) (w : Writer) :
    Inquiry Writer := do
  let e ← resolve here schema f.name
  ofExcept (writeValue ctx schema f ⟨here, f.name⟩ e w)

def encodeFields (ctx : Context) (here : Address) (schema : Schema) :
    List Field → Writer → Inquiry Writer
  | [], w => return w
  | f :: rest, w =>
    if f.emission = .skip then encodeFields ctx here schema rest w
    else do
      let w' ← encodeField ctx here schema f w
      encodeFields ctx here schema rest w'

def encodeDistribution (here : Address) (schema : Schema) (slot : Slot) (w : Writer) :
    Inquiry Writer := do
  let d ← distribution here schema
  ofExcept (put here.path (.distribution slot.coordinate d) w)

mutual

def encodeNode (ctx : Context) (here : Address) : Node → Writer → Inquiry Writer
  | ⟨schema, some slot, _, _⟩, w => encodeDistribution here schema slot w
  | ⟨schema, none, _, children⟩, w => do
    let w' ← encodeFields ctx here schema schema.fields w
    encodeChildren ctx here children w'

def encodeChildren (ctx : Context) (here : Address) :
    List (String × Node) → Writer → Inquiry Writer
  | [], w => return w
  | (name, n) :: rest, w => do
    let w' ← encodeNode ctx (here ++ [name]) n w
    encodeChildren ctx here rest w'

end

end Plain
end CrowdScenario

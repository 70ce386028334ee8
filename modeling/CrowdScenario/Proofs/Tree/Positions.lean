import CrowdScenario.Proofs.Tree.Children

/-!
# Positions of sections

The positions of a description are the places where a section is expected: the document, and below a
block its nested fields that are supplied. Each is visited before those below it, and those below it
before the next. Building a tree fails at the first position of a visit that has a defect
(`failure?_build`).
-/

namespace CrowdScenario

def Json.inner (j : Json) : Json.Members :=
  match j with
  | object block => block
  | _ => []

def FieldKind.schemaName? : FieldKind → Option String
  | nested name => some name
  | distribution _ => some Schema.distributionName
  | _ => none

def FieldKind.slot? : FieldKind → Option Slot
  | distribution slot => some slot
  | _ => none

/-- A place where a section with a schema is expected, and what the author wrote there. -/
structure Position where
  address : Address
  schemaName : String
  slot? : Option Slot
  written : Json

namespace Position

def ofDocument (members : Json.Members) : Position :=
  ⟨[], Schema.rootName, none, .object members⟩

/-- The position in a field of a block, if the field is nested and supplied. -/
def inField (here : Address) (block : Json.Members) (f : Field) : Option Position := do
  let schemaName ← f.kind.schemaName?
  let written ← Json.supplied? block f.name
  return ⟨here ++ [f.name], schemaName, f.kind.slot?, written⟩

/-- The positions in the fields of a section, in the order of declaration. There are none below a
value, and none without a schema. -/
def below (registry : Registry) (p : Position) : List Position :=
  match registry.schema? p.schemaName with
  | some schema => schema.fields.filterMap (inField p.address p.written.inner)
  | none => []

theorem sizeOf_lt_of_supplied? {j j' : Json} {name : String}
    (h : Json.supplied? j.inner name = some j') : sizeOf j' < sizeOf j := by
  have hlt := sizeOf_lt_of_lookup (Option.filter_eq_some_iff.mp h).1
  cases j with
  | object block =>
    simp only [Json.inner, Json.object.sizeOf_spec] at hlt ⊢
    omega
  | _ => cases h

theorem inField_eq_some {here : Address} {block : Json.Members} {f : Field} {q : Position}
    (h : inField here block f = some q) :
    f.kind.schemaName? = some q.schemaName ∧ Json.supplied? block f.name = some q.written ∧
      q.address = here ++ [f.name] ∧ q.slot? = f.kind.slot? := by
  obtain ⟨schemaName, hname, hrest⟩ := Option.bind_eq_some_iff.mp h
  obtain ⟨written, hwritten, hq⟩ := Option.bind_eq_some_iff.mp hrest
  cases hq
  exact ⟨hname, hwritten, rfl, rfl⟩

theorem mem_below {registry : Registry} {p q : Position} :
    q ∈ p.below registry ↔ ∃ schema f, registry.schema? p.schemaName = some schema ∧
      f ∈ schema.fields ∧ inField p.address p.written.inner f = some q := by
  unfold below
  cases registry.schema? p.schemaName with
  | none => simp
  | some schema => simp

theorem sizeOf_lt_of_mem_below {registry : Registry} {p q : Position}
    (h : q ∈ p.below registry) : sizeOf q.written < sizeOf p.written := by
  obtain ⟨schema, f, -, -, hf⟩ := mem_below.mp h
  exact sizeOf_lt_of_supplied? (inField_eq_some hf).2.1

def visit (registry : Registry) (p : Position) : List Position :=
  p :: (p.below registry).attach.flatMap fun q => visit registry q.1
termination_by sizeOf p.written
decreasing_by exact sizeOf_lt_of_mem_below q.2

theorem visit_eq (registry : Registry) (p : Position) :
    p.visit registry = p :: (p.below registry).flatMap (visit registry) := by
  rw [visit, List.flatMap_subtype (g := visit registry) (fun _ _ => rfl), List.unattach_attach]

/-- What holds of a position, and below each that it holds of, holds of all that are visited. -/
theorem forall_mem_visit {registry : Registry} {motive : Position → Prop} {p : Position}
    (hp : motive p) (hbelow : ∀ r, motive r → ∀ q ∈ r.below registry, motive q) :
    ∀ q ∈ p.visit registry, motive q := by
  induction p using visit.induct registry with
  | case1 p ih =>
    intro q hq
    rw [visit_eq, List.mem_cons, List.mem_flatMap] at hq
    rcases hq with rfl | ⟨r, hr, hq⟩
    · exact hp
    · exact ih ⟨r, hr⟩ (hbelow p hp r hr) q hq

def path (p : Position) : String := p.address.path

def place (p : Position) : String := if p.address = [] then "<document>" else p.path

def expected (p : Position) : String :=
  match p.slot? with
  | none => "section block"
  | some _ => "distribution block, number or reference"

/-- The members of the section: the block that is written, or for a distribution given by a number
or a text the block around it. -/
def block? (p : Position) : Option Json.Members :=
  match p.slot?, p.written with
  | _, .object block => some block
  | some _, .integer n => some (Node.fixedBlock (.integer n))
  | some _, .float x => some (Node.fixedBlock (.float x))
  | some _, .string s => some (Node.fixedBlock (.string s))
  | _, _ => none

/-- What is wrong at a position, if anything is. -/
def defect? (registry : Registry) (p : Position) : Option CompileError :=
  match registry.schema? p.schemaName with
  | none => some (.unknownSectionType p.schemaName p.place)
  | some schema =>
    match p.block? with
    | none => some (.invalidValue p.path p.expected p.written.compact)
    | some block =>
      (Node.undeclared? schema block).map fun name =>
        .unknownField name (Node.displayPath schema p.path)

end Position

theorem Node.buildChildren_nil {registry : Registry} (here : Address) (fields : List Field) :
    buildChildren registry here [] fields = .ok [] := by
  induction fields with
  | nil => rw [buildChildren]
  | cons f fields ih =>
    have habsent : Json.supplied? [] f.name = none := rfl
    rw [buildChildren, buildChild_eq_childOf, habsent, childOf_none, ih]
    rfl

namespace Position

variable {registry : Registry} {p : Position}

def build (registry : Registry) (p : Position) : Except CompileError Node :=
  match registry.schema? p.schemaName with
  | none => .error (.unknownSectionType p.schemaName p.place)
  | some schema =>
    match p.block? with
    | none => .error (.invalidValue p.path p.expected p.written.compact)
    | some block =>
      match Node.checkMembers schema p.address block with
      | .error e => .error e
      | .ok () =>
        match Node.buildChildren registry p.address p.written.inner schema.fields with
        | .error e => .error e
        | .ok children => .ok ⟨schema, p.slot?, block, children⟩

theorem build_block {schemaName : String} {schema : Schema} {slot? : Option Slot} {here : Address}
    {block : Json.Members} (hschema : registry.schema? schemaName = some schema) :
    build registry ⟨here, schemaName, slot?, .object block⟩ =
      Node.build registry schema slot? here block := by
  rw [build, Node.build]
  simp only [hschema]
  cases slot? <;> rfl

theorem build_fixed {schemaName : String} {schema : Schema} {slot : Slot} {here : Address}
    {j : Json} (hschema : registry.schema? schemaName = some schema)
    (hblock : block? ⟨here, schemaName, some slot, j⟩ = some (Node.fixedBlock j))
    (hinner : j.inner = []) :
    build registry ⟨here, schemaName, some slot, j⟩ = Node.fixed schema slot here j := by
  rw [build, Node.fixed]
  simp only [hschema, hblock, hinner, Node.buildChildren_nil]
  cases Node.checkMembers schema here (Node.fixedBlock j) <;> rfl

theorem ofDescription_eq (members : Json.Members) :
    Node.ofDescription registry members = (ofDocument members).build registry := by
  unfold Node.ofDescription Node.requireSchema ofDocument
  cases hschema : registry.schema? Schema.rootName with
  | none =>
    rw [build, hschema]
    rfl
  | some schema => exact (build_block hschema).symm

theorem build_misshapen {schema : Schema} (hschema : registry.schema? p.schemaName = some schema)
    (hblock : p.block? = none) :
    p.build registry = .error (.invalidValue p.path p.expected p.written.compact) := by
  rw [build, hschema]
  simp only [hblock]

theorem build_unregistered (hschema : registry.schema? p.schemaName = none)
    (haddress : p.address ≠ []) :
    p.build registry = .error (.unknownSectionType p.schemaName p.path) := by
  rw [build, hschema, place, if_neg haddress]

theorem buildChild_eq (here : Address) (block : Json.Members) (f : Field) :
    Node.buildChild registry here block f =
      match inField here block f with
      | none => .ok none
      | some q => (q.build registry).map some := by
  rw [Node.buildChild_eq_childOf]
  have hbelow : here ++ [f.name] ≠ [] := by simp
  cases hj : Json.supplied? block f.name with
  | none =>
    rw [Node.childOf_none]
    cases hkind : f.kind <;> simp [inField, hkind, hj, FieldKind.schemaName?]
  | some j =>
    cases hkind : f.kind with
    | nested name =>
      have hq : inField here block f = some ⟨here ++ [f.name], name, none, j⟩ := by
        simp [inField, hkind, hj, FieldKind.schemaName?, FieldKind.slot?]
      simp only [hq, Node.childOf, hkind, Node.requireSchema]
      cases hschema : registry.schema? name with
      | none =>
        rw [build_unregistered hschema hbelow]
        rfl
      | some schema =>
        cases j with
        | object block => rw [build_block hschema]
        | _ =>
          rw [build_misshapen hschema rfl]
          rfl
    | distribution slot =>
      have hq : inField here block f =
          some ⟨here ++ [f.name], Schema.distributionName, some slot, j⟩ := by
        simp [inField, hkind, hj, FieldKind.schemaName?, FieldKind.slot?]
      simp only [hq, Node.childOf, hkind, Node.requireSchema]
      cases hschema : registry.schema? Schema.distributionName with
      | none =>
        rw [build_unregistered hschema hbelow]
        rfl
      | some schema =>
        cases j with
        | object block => rw [build_block hschema]
        | integer n => rw [build_fixed hschema rfl rfl]
        | float x => rw [build_fixed hschema rfl rfl]
        | string s => rw [build_fixed hschema rfl rfl]
        | _ =>
          rw [build_misshapen hschema rfl]
          rfl
    | _ => simp [Node.childOf, inField, hkind, FieldKind.schemaName?]

/-- How a computation fails, if it does. -/
def failure? {α : Type} : Except CompileError α → Option CompileError
  | .error e => some e
  | .ok _ => none

theorem failure?_eq_some {α : Type} {r : Except CompileError α} {e : CompileError} :
    failure? r = some e ↔ r = .error e := by
  cases r <;> simp [failure?]

theorem failure?_eq_none {α : Type} {r : Except CompileError α} :
    failure? r = none ↔ ∃ a, r = .ok a := by
  cases r <;> simp [failure?]

theorem failure?_buildChildren {here : Address} {block : Json.Members} {fields : List Field}
    (hbelow : ∀ q ∈ fields.filterMap (inField here block),
      failure? (q.build registry) = (q.visit registry).findSome? (defect? registry)) :
    failure? (Node.buildChildren registry here block fields) =
      ((fields.filterMap (inField here block)).flatMap (visit registry)).findSome?
        (defect? registry) := by
  induction fields with
  | nil =>
    rw [Node.buildChildren]
    rfl
  | cons f fields ih =>
    rw [Node.buildChildren, buildChild_eq]
    cases hf : inField here block f with
    | none =>
      rw [List.filterMap_cons_none hf] at hbelow ⊢
      rw [← ih hbelow]
      cases Node.buildChildren registry here block fields <;> rfl
    | some q =>
      rw [List.filterMap_cons_some hf] at hbelow ⊢
      obtain ⟨hq, hrest⟩ := List.forall_mem_cons.mp hbelow
      rw [List.flatMap_cons, List.findSome?_append, ← hq, ← ih hrest]
      dsimp only
      cases q.build registry with
      | error e => rfl
      | ok n => cases Node.buildChildren registry here block fields <;> rfl

theorem failure?_build (p : Position) :
    failure? (p.build registry) = (p.visit registry).findSome? (defect? registry) := by
  -- The induction follows the visit: what is below a position is looked at only if the position
  -- itself has no defect.
  induction p using visit.induct registry with
  | case1 p ih =>
    rw [visit_eq, List.findSome?_cons, build, defect?]
    cases hschema : registry.schema? p.schemaName with
    | none => rfl
    | some schema =>
      cases hblock : p.block? with
      | none => rfl
      | some block =>
        simp only [Node.checkMembers]
        cases Node.undeclared? schema block with
        | some name => rfl
        | none =>
          have hbelow : p.below registry =
              schema.fields.filterMap (inField p.address p.written.inner) := by
            rw [below, hschema]
          rw [hbelow, Option.map_none]
          dsimp only
          rw [← failure?_buildChildren fun q hq => ih ⟨q, hbelow ▸ hq⟩]
          cases Node.buildChildren registry p.address p.written.inner schema.fields <;> rfl

end Position

end CrowdScenario

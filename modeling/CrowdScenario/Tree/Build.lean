import CrowdScenario.Failure
import CrowdScenario.Json.Printer
import CrowdScenario.Schema.Standard
import CrowdScenario.Tree.Basic

/-!
# Building the section tree (`SPEC_FULL.md`, sections 4.1 and 4.2)

The tree follows the blocks that an author wrote, guided by the schemas. A block may only have the
members its schema declares; a member that is null counts as absent. A distribution may be given by
a number or a text alone: it then is a normal distribution around that value without any deviation.
-/

namespace CrowdScenario

theorem sizeOf_lt_of_lookup {members : Json.Members} {name : String} {j : Json}
    (h : members.lookup name = some j) : sizeOf j < sizeOf members := by
  induction members with
  | nil => cases h
  | cons m rest ih =>
    rcases m with ⟨n, v⟩
    rw [List.lookup_cons] at h
    split at h
    · cases h
      simp only [List.cons.sizeOf_spec, Prod.mk.sizeOf_spec]
      omega
    · have := ih h
      simp only [List.cons.sizeOf_spec]
      omega

theorem sizeOf_block_lt_of_supplied? {members block : Json.Members} {name : String}
    (h : Json.supplied? members name = some (.object block)) : sizeOf block < sizeOf members := by
  have h1 : members.lookup name = some (.object block) := (Option.filter_eq_some_iff.mp h).1
  have h2 := sizeOf_lt_of_lookup h1
  simp only [Json.object.sizeOf_spec] at h2
  omega

namespace Node

def undeclared? (schema : Schema) (members : Json.Members) : Option String :=
  (members.map (·.1)).find? fun name => (schema.field? name).isNone

def checkMembers (schema : Schema) (here : Address) (members : Json.Members) :
    Except CompileError Unit :=
  match undeclared? schema members with
  | some name => .error (.unknownField name (displayPath schema here.path))
  | none => .ok ()

def requireSchema (registry : Registry) (name path : String) : Except CompileError Schema :=
  match registry.schema? name with
  | some s => .ok s
  | none => .error (.unknownSectionType name path)

def fixedBlock (value : Json) : Json.Members :=
  [(Schema.kindField, .string DistributionKind.normal.name),
   (DistributionKind.normal.firstName, value),
   (DistributionKind.normal.secondName, .float .zero)]

/-- The distribution around a value, without sections below it. -/
def fixed (schema : Schema) (slot : Slot) (here : Address) (value : Json) :
    Except CompileError Node := do
  checkMembers schema here (fixedBlock value)
  return ⟨schema, some slot, fixedBlock value, []⟩

mutual

def build (registry : Registry) (schema : Schema) (slot? : Option Slot) (here : Address)
    (members : Json.Members) : Except CompileError Node :=
  match checkMembers schema here members with
  | .error e => .error e
  | .ok () =>
    match buildChildren registry here members schema.fields with
    | .error e => .error e
    | .ok children => .ok ⟨schema, slot?, members, children⟩
termination_by (sizeOf members, schema.fields.length + 1)

def buildChildren (registry : Registry) (here : Address) (members : Json.Members) :
    List Field → Except CompileError (List (String × Node))
  | [] => .ok []
  | f :: fs =>
    match buildChild registry here members f with
    | .error e => .error e
    | .ok child? =>
      match buildChildren registry here members fs with
      | .error e => .error e
      | .ok rest => .ok (child?.toList.map (f.name, ·) ++ rest)
termination_by fs => (sizeOf members, fs.length)

/-- The section in a field, if the field holds one and the author supplied it. -/
def buildChild (registry : Registry) (here : Address) (members : Json.Members) (f : Field) :
    Except CompileError (Option Node) :=
  let below := here ++ [f.name]
  match f.kind, _h : Json.supplied? members f.name with
  | .nested name, some j =>
    match requireSchema registry name below.path with
    | .error e => .error e
    | .ok schema =>
      match j, _h with
      | .object block, _h => (build registry schema none below block).map some
      | j, _ => .error (.invalidValue below.path "section block" j.compact)
  | .distribution slot, some j =>
    match requireSchema registry Schema.distributionName below.path with
    | .error e => .error e
    | .ok schema =>
      match j, _h with
      | .object block, _h => (build registry schema (some slot) below block).map some
      | .integer n, _ => (fixed schema slot below (.integer n)).map some
      | .float x, _ => (fixed schema slot below (.float x)).map some
      | .string s, _ => (fixed schema slot below (.string s)).map some
      | j, _ =>
        .error (.invalidValue below.path "distribution block, number or reference" j.compact)
  | _, _ => .ok none
termination_by (sizeOf members, 0)
decreasing_by
  all_goals
    have := sizeOf_block_lt_of_supplied? _h
    exact Prod.Lex.left _ _ this

end

def ofDescription (registry : Registry) (members : Json.Members) : Except CompileError Node := do
  let schema ← requireSchema registry Schema.rootName "<document>"
  build registry schema none [] members

end Node

end CrowdScenario

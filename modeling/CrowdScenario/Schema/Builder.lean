import CrowdScenario.Schema.Basic

/-!
# Building schemas (`SPEC_FULL.md`, section 4.1)

Schemas are drafted field by field and then checked, and registered one by one. A draft may be
wrong in two ways: a field name is declared twice, or a field is to be written although the draft
has no section.
-/

namespace CrowdScenario

inductive SchemaError where
  | duplicateField (schema field : String)
  | duplicateSection (schema : String)
  | missingSection (schema field : String)
deriving DecidableEq

namespace SchemaError

def message : SchemaError → String
  | duplicateField schema field => s!"section '{schema}' declares field '{field}' twice"
  | duplicateSection schema => s!"section '{schema}' is registered twice"
  | missingSection schema field =>
    s!"field '{field}' of section '{schema}' emits records but the section has no wire id"

end SchemaError

structure Draft where
  name : String
  owner : Option Section
  fields : List Field

namespace Draft

def named (name : String) : Draft := ⟨name, none, []⟩

def inSection (d : Draft) (s : Section) : Draft := { d with owner := some s }

def declare (d : Draft) (f : Field) : Draft := { d with fields := d.fields ++ [f] }

/-- The first name that repeats one before it, given the names before. -/
def firstRepeated? (seen : List String) : List String → Option String
  | [] => none
  | n :: ns => if n ∈ seen then some n else firstRepeated? (n :: seen) ns

theorem nodup_of_firstRepeated? {seen ns : List String} (h : firstRepeated? seen ns = none) :
    ns.Nodup ∧ ∀ n ∈ ns, n ∉ seen := by
  induction ns generalizing seen with
  | nil => simp
  | cons n ns ih =>
    simp only [firstRepeated?] at h
    split at h
    · cases h
    · next hn =>
      obtain ⟨hd, hs⟩ := ih h
      refine ⟨List.nodup_cons.mpr ⟨fun hmem => hs n hmem (List.mem_cons_self ..), hd⟩, ?_⟩
      intro m hm hseen
      rcases List.mem_cons.mp hm with rfl | hm
      · exact hn hseen
      · exact hs m hm (List.mem_cons_of_mem _ hseen)

def homeless? (d : Draft) : Option Field :=
  match d.owner with
  | some _ => none
  | none => d.fields.find? fun f => f.emission.needsSection

theorem owner_of_homeless? {d : Draft} (h : d.homeless? = none) (ho : d.owner = none) :
    ∀ f ∈ d.fields, f.emission.needsSection = false := by
  rw [homeless?, ho] at h
  simpa using h

def build (d : Draft) : Except SchemaError Schema :=
  match hr : firstRepeated? [] (d.fields.map Field.name) with
  | some name => .error (.duplicateField d.name name)
  | none =>
    match hh : d.homeless? with
    | some f => .error (.missingSection d.name f.name)
    | none => .ok ⟨d.name, d.owner, d.fields, (nodup_of_firstRepeated? hr).1, owner_of_homeless? hh⟩

end Draft

/-- The schemas known to a compilation, no two with one name. -/
structure Registry where
  schemas : List Schema
  names_nodup : (schemas.map Schema.name).Nodup

namespace Registry

def empty : Registry := ⟨[], List.nodup_nil⟩

def schema? (r : Registry) (name : String) : Option Schema :=
  r.schemas.find? fun s => s.name = name

def names (r : Registry) : List String := (r.schemas.map Schema.name).mergeSort (· ≤ ·)

def register (r : Registry) (s : Schema) : Except SchemaError Registry :=
  if h : s.name ∈ r.schemas.map Schema.name then .error (.duplicateSection s.name)
  else .ok ⟨s :: r.schemas, List.nodup_cons.mpr ⟨h, r.names_nodup⟩⟩

def ofDrafts (drafts : List Draft) : Except SchemaError Registry :=
  drafts.foldlM (fun r d => d.build >>= r.register) empty

end Registry

end CrowdScenario

import CrowdScenario.Json.Basic
import CrowdScenario.Reference
import CrowdScenario.Schema.Builder

/-!
# Section trees (`SPEC_FULL.md`, section 3)

A description as a tree of sections. Every section knows its schema, what the author wrote in it and
the sections below it. Sections are addressed by the names of the fields that lead to them from the
root, and fields by the address of their section and their name.
-/

namespace CrowdScenario

def joinPath (path name : String) : String := if path = "" then name else path ++ "." ++ name

abbrev Address := List String

def Address.path (a : Address) : String := a.foldl joinPath ""

structure FieldId where
  owner : Address
  name : String
deriving DecidableEq

def FieldId.path (f : FieldId) : String := joinPath f.owner.path f.name

/-- A section of a description with the sections below it, in the order of its schema. A
distribution is a section that knows where it is written. -/
structure Node where
  schema : Schema
  slot? : Option Slot
  members : Json.Members
  children : List (String × Node)

namespace Node

def child? (n : Node) (name : String) : Option Node := n.children.lookup name

def at? (n : Node) : Address → Option Node
  | [] => some n
  | name :: rest => (n.child? name).bind fun c => c.at? rest

def field? (root : Node) (id : FieldId) : Option (Node × Field) :=
  (root.at? id.owner).bind fun n => (n.schema.field? id.name).map (n, ·)

/-- What the fields of a distribution fall back to before their defaults. -/
def fallback? (n : Node) (name : String) : Option Default :=
  n.slot?.bind fun slot => slot.fallbacks.lookup name

def displayPath (schema : Schema) (path : String) : String :=
  if path = "" then "<" ++ schema.name ++ ">" else path

def ownScalars (schema : Schema) (here : Address) : List FieldId :=
  (schema.fields.filter fun f => !f.kind.isNested).map fun f => ⟨here, f.name⟩

mutual

/-- All fields that hold values, in a section at an address and below it. -/
def scalars (here : Address) : Node → List FieldId
  | ⟨schema, _, _, children⟩ => ownScalars schema here ++ scalarsBelow here children

def scalarsBelow (here : Address) : List (String × Node) → List FieldId
  | [] => []
  | (name, n) :: rest => scalars (here ++ [name]) n ++ scalarsBelow here rest

end

/-- What a reference leads to: a field to be resolved, the side value it leaves behind if that is
meant, and the steps that select from the value. -/
structure Target where
  field : FieldId
  side? : Option String
  selection : Reference
deriving DecidableEq

/-- The field behind a name in a section at an address, if the name is a field that holds a value or
a side value. -/
def target? (schema : Schema) (here : Address) (name : String) (selection : Reference) :
    Option Target :=
  match schema.field? name with
  | some f => if f.kind.isNested then none else some ⟨⟨here, name⟩, none, selection⟩
  | none => (schema.sideOwner? name).map fun f => ⟨⟨here, f.name⟩, some name, selection⟩

/-- What a reference leads to from a section at an address. Sections come before fields, and a
reference that ends on a section leads nowhere. -/
def locate? (n : Node) (here : Address) : Reference → Option Target
  | [] => none
  | .tag _ :: _ => none
  | .field name :: rest =>
    match n.child? name with
    | some c => c.locate? (here ++ [name]) rest
    | none => target? n.schema here name rest

end Node

def Value.select? (v : Value) : Reference → Option Value
  | [] => some v
  | .tag name :: rest => (v.selectTag? name).bind fun selected => selected.select? rest
  | .field _ :: _ => none

end CrowdScenario

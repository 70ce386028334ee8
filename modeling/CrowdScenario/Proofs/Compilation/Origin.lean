import CrowdScenario.Proofs.Compilation.Layout
import CrowdScenario.Proofs.Tree.Positions
import Mathlib.Data.List.Induction

/-!
# What an author wrote, and where it stands in the tree

Every section of the tree comes from a block that an author wrote at its address, or stands around a
value in the field it is in. So what a section knows of a field is what was written at the end of its
path, and a reference of an author is found in the tree by the path where it was written.
-/

namespace CrowdScenario

theorem Json.suppliedAt?_append {members : Json.Members} {path : List String} {j : Json}
    (h : Json.suppliedAt? members path = some j) (name : String) :
    Json.suppliedAt? members (path ++ [name]) = Json.supplied? j.inner name := by
  induction path generalizing members with
  | nil => cases h
  | cons first rest ih =>
    cases rest with
    | nil =>
      have hfirst : Json.supplied? members first = some j := h
      rw [List.singleton_append]
      simp only [suppliedAt?, hfirst]
      cases j <;> rfl
    | cons second rest =>
      cases hj : Json.supplied? members first with
      | none =>
        rw [Json.suppliedAt?_of_none hj] at h
        cases h
      | some j' =>
        cases j' with
        | object block =>
          rw [Json.suppliedAt?_of_block hj] at h
          rw [List.cons_append, List.cons_append, Json.suppliedAt?_of_block hj]
          exact ih h
        | _ =>
          simp only [suppliedAt?, hj] at h
          cases h

namespace Node

/-- Where a section at an address comes from: a block, or a value in the field it is in. -/
inductive Origin (registry : Registry) (members : Json.Members) (root : Node) (here : Address)
    (n : Node) : Prop
  | block
      (children : buildChildren registry here n.members n.schema.fields = .ok n.children)
      (written : ∀ name,
        Json.suppliedAt? members (here ++ [name]) = Json.supplied? n.members name)
  | value {above : Address} {p : Node} {f : Field} {slot : Slot} {j : Json}
      (address : here = above ++ [f.name]) (parent : root.at? above = some p)
      (declared : f ∈ p.schema.fields) (kind : f.kind = .distribution slot)
      (written : Json.suppliedAt? members here = some j) (single : j.inner = [])
      (slotted : n.slot? = some slot) (around : n.members = fixedBlock j) (leaf : n.children = [])

section
variable {registry : Registry} {members : Json.Members} {root n : Node} {here : Address}

theorem origin_of_at? (hroot : ofDescription registry members = .ok root)
    (hn : root.at? here = some n) : Origin registry members root here n := by
  induction here using List.reverseRecOn generalizing n with
  | nil =>
    cases hn
    obtain ⟨schema, -, hbuild⟩ := ofDescription_eq_ok hroot
    obtain ⟨children, hchildren, rfl⟩ := build_eq_ok hbuild
    exact .block hchildren fun name => rfl
  | append_singleton above name ih =>
    obtain ⟨p, hp, hchild, f, hf, rfl, hbuild⟩ := field_of_at? hroot hn
    cases ih hp with
    | value _ _ _ _ _ _ _ _ leaf =>
      rw [child?, leaf] at hchild
      cases hchild
    | block _ written =>
      obtain ⟨j, _, hj, -⟩ := buildChild_eq_some hbuild
      have hat := written f.name
      rw [hj] at hat
      cases j with
      | object block =>
        obtain ⟨rfl, hchildren⟩ := members_of_block hbuild hj
        exact .block hchildren fun name => Json.suppliedAt?_append hat name
      | _ =>
        obtain ⟨schema, slot, hkind, rfl⟩ := fixed_of_value hbuild hj nofun
        exact .value rfl hp hf hkind hat rfl rfl rfl rfl

theorem suppliedAt?_of_at? (hroot : ofDescription registry members = .ok root) {above : Address}
    {name : String} (hn : root.at? (above ++ [name]) = some n) :
    ∃ j, Json.suppliedAt? members (above ++ [name]) = some j := by
  obtain ⟨p, hp, hchild, f, -, rfl, hbuild⟩ := field_of_at? hroot hn
  obtain ⟨j, _, hj, -⟩ := buildChild_eq_some hbuild
  cases origin_of_at? hroot hp with
  | block _ written =>
    rw [written, hj]
    exact ⟨j, rfl⟩
  | value _ _ _ _ _ _ _ _ leaf =>
    rw [child?, leaf] at hchild
    cases hchild

def Refers (root : Node) (members : Json.Members) (id : FieldId) (expression : String) : Prop :=
  ∃ n f j, root.field? id = some (n, f) ∧
    Json.suppliedAt? members (id.owner ++ [id.name]) = some j ∧
    (Input.json j).reference? = some expression

theorem reference?_of_fixedBlock {j j' : Json} {name expression : String}
    (h : Json.supplied? (fixedBlock j) name = some j')
    (href : (Input.json j').reference? = some expression) :
    name = DistributionKind.normal.firstName ∧ j' = j := by
  have hmem := mem_of_lookup (Option.filter_eq_some_iff.mp h).1
  simp only [fixedBlock, List.mem_cons, Prod.mk.injEq, List.not_mem_nil, or_false] at hmem
  rcases hmem with ⟨-, rfl⟩ | ⟨rfl, rfl⟩ | ⟨-, rfl⟩
  · have hnone : (Input.json (.string DistributionKind.normal.name)).reference? = none := by decide
    rw [hnone] at href
    cases href
  · exact ⟨rfl, rfl⟩
  · cases href

/-- A reference that a section knows of was written in its field, or in the field of a section that
stands around it. -/
theorem refers_of_supplied (hroot : ofDescription registry members = .ok root) {id : FieldId}
    {f : Field} {j : Json} {expression : String} (hfield : root.field? id = some (n, f))
    (hj : Json.supplied? n.members f.name = some j)
    (href : (Input.json j).reference? = some expression) :
    ∃ id', root.Refers members id' expression ∧
      (id' = id ∨ id.owner = id'.owner ++ [id'.name]) := by
  obtain ⟨hn, hf⟩ := field?_eq_some.mp hfield
  have hname := (Schema.mem_of_field? hf).2
  cases origin_of_at? hroot hn with
  | block _ written =>
    have hat := written f.name
    rw [hj, hname] at hat
    exact ⟨id, ⟨n, f, j, hfield, hat, href⟩, .inl rfl⟩
  | @value above p g slot j' address parent declared kind written _ _ around _ =>
    rw [around] at hj
    obtain ⟨-, rfl⟩ := reference?_of_fixedBlock hj href
    have hparent : root.field? ⟨above, g.name⟩ = some (p, g) :=
      field?_eq_some.mpr ⟨parent, p.schema.field?_of_mem declared⟩
    rw [address] at written
    exact ⟨⟨above, g.name⟩, ⟨p, g, j, hparent, written, href⟩, .inr address⟩

end

end Node
end CrowdScenario

import CrowdScenario.Proofs.Tree.Positions

/-!
# Failures of building a tree

A description has no tree if it has a member that is not declared, or something that is no section
where one is declared, or if the registry lacks a schema that it refers to itself
(`failure_of_ofDescription`).
-/

namespace CrowdScenario

namespace Registry

structure Lacks (r : Registry) (name : String) : Prop where
  unknown : r.schema? name = none
  referred : name = Schema.rootName ∨
    ∃ s ∈ r.schemas, ∃ f ∈ s.fields, f.kind.schemaName? = some name

theorem not_standard_lacks (name : String) : ¬ standard.Lacks name := by
  rintro ⟨hunknown, rfl | ⟨s, hs, f, hf, hname⟩⟩
  · cases hunknown
  · have hknown : ∀ s ∈ standard.schemas, ∀ f ∈ s.fields, ∀ name ∈ f.kind.schemaName?,
        (standard.schema? name).isSome = true := by
      decide
    have hsome := hknown s hs f hf name hname
    rw [hunknown] at hsome
    cases hsome

end Registry

def Node.forms : List String := ["section block", "distribution block, number or reference"]

/-- The failures of a description without a tree. -/
def CompileError.OfTree (registry : Registry) : CompileError → Prop
  | unknownSectionType name _ => registry.Lacks name
  | unknownField _ _ => True
  | invalidValue _ expected _ => expected ∈ Node.forms
  | _ => False

namespace Position

variable {registry : Registry} {members : Json.Members} {p : Position} {e : CompileError}

theorem referred_of_mem_visit : ∀ p ∈ (ofDocument members).visit registry,
    p.schemaName = Schema.rootName ∨
      ∃ s ∈ registry.schemas, ∃ f ∈ s.fields, f.kind.schemaName? = some p.schemaName := by
  refine forall_mem_visit (.inl rfl) fun r _ q hq => ?_
  obtain ⟨schema, f, hschema, hf, hq⟩ := mem_below.mp hq
  exact .inr ⟨schema, (Registry.mem_of_schema? hschema).1, f, hf, (inField_eq_some hq).1⟩

theorem expected_mem_forms (p : Position) : p.expected ∈ Node.forms := by
  unfold expected
  split <;> decide

theorem ofTree_of_defect? (hreferred : p.schemaName = Schema.rootName ∨
      ∃ s ∈ registry.schemas, ∃ f ∈ s.fields, f.kind.schemaName? = some p.schemaName)
    (h : p.defect? registry = some e) : e.OfTree registry := by
  unfold defect? at h
  cases hschema : registry.schema? p.schemaName with
  | none =>
    rw [hschema] at h
    cases h
    exact ⟨hschema, hreferred⟩
  | some schema =>
    simp only [hschema] at h
    cases hblock : p.block? with
    | none =>
      simp only [hblock] at h
      cases h
      exact p.expected_mem_forms
    | some block =>
      simp only [hblock] at h
      obtain ⟨name, -, rfl⟩ := Option.map_eq_some_iff.mp h
      trivial

end Position

/-- A description without a tree has an undeclared member, or lacks a section or a schema. -/
theorem Node.failure_of_ofDescription {registry : Registry} {members : Json.Members}
    {e : CompileError} (h : ofDescription registry members = .error e) : e.OfTree registry := by
  rw [Position.ofDescription_eq, ← Position.failure?_eq_some, Position.failure?_build] at h
  obtain ⟨p, hp, hdefect⟩ := List.exists_of_findSome?_eq_some h
  exact Position.ofTree_of_defect? (Position.referred_of_mem_visit p hp) hdefect

end CrowdScenario

import CrowdScenario.Proofs.Schema.Lookup
import CrowdScenario.Tree.Build

/-!
# Built trees

Every section of a built tree has a schema of the registry, and the sections below it are in
different fields of that schema, in the order of the fields.
-/

namespace CrowdScenario
namespace Node

/-- A tree whose sections follow the schemas of a registry. -/
inductive Built (registry : Registry) : Node → Prop
  | mk {schema : Schema} {slot? : Option Slot} {members : Json.Members}
      {children : List (String × Node)} (known : schema ∈ registry.schemas)
      (ordered : List.Sublist (children.map Prod.fst) (schema.fields.map Field.name))
      (below : ∀ p ∈ children, Built registry p.2) : Built registry ⟨schema, slot?, members, children⟩

variable {registry : Registry}

theorem requireSchema_eq_ok {name path : String} {schema : Schema}
    (h : requireSchema registry name path = .ok schema) : registry.schema? name = some schema := by
  unfold requireSchema at h
  split at h
  · next s hs =>
    cases h
    exact hs
  · cases h

theorem fixed_eq_ok {schema : Schema} {slot : Slot} {here : Address} {value : Json} {n : Node}
    (h : fixed schema slot here value = .ok n) : n = ⟨schema, some slot, fixedBlock value, []⟩ := by
  unfold fixed at h
  cases hcheck : checkMembers schema here (fixedBlock value) with
  | error e =>
    rw [hcheck] at h
    cases h
  | ok u =>
    rw [hcheck] at h
    cases h
    rfl

theorem built_fixed {schema : Schema} (hschema : schema ∈ registry.schemas) {slot : Slot}
    {here : Address} {value : Json} {n : Node} (h : fixed schema slot here value = .ok n) :
    Built registry n := by
  rw [fixed_eq_ok h]
  exact .mk hschema (List.nil_sublist _) nofun

theorem map_some_eq_ok {result : Except CompileError Node} {n : Node}
    (h : result.map some = .ok (some n)) : result = .ok n := by
  cases result with
  | error e => cases h
  | ok c =>
    cases h
    rfl

theorem map_some_ne_none {result : Except CompileError Node} : result.map some ≠ .ok none := by
  cases result <;> exact nofun

theorem buildChild_eq_some {members : Json.Members} {here : Address} {f : Field} {n : Node}
    (h : buildChild registry here members f = .ok (some n)) :
    ∃ j schema, Json.supplied? members f.name = some j ∧
      ((∃ name block, f.kind = .nested name ∧ registry.schema? name = some schema ∧
          j = .object block ∧ build registry schema none (here ++ [f.name]) block = .ok n) ∨
        ∃ slot, f.kind = .distribution slot ∧
          registry.schema? Schema.distributionName = some schema ∧
          ((∃ block, j = .object block ∧
              build registry schema (some slot) (here ++ [f.name]) block = .ok n) ∨
            fixed schema slot (here ++ [f.name]) j = .ok n)) := by
  rw [buildChild] at h
  split at h
  · next name j hkind hj =>
    split at h
    · cases h
    · next schema hschema =>
      split at h
      · exact ⟨_, schema, ‹_›, .inl ⟨name, _, hkind, requireSchema_eq_ok hschema, rfl,
          map_some_eq_ok h⟩⟩
      · cases h
  · next slot j hkind hj =>
    split at h
    · cases h
    · next schema hschema =>
      have hregistered := requireSchema_eq_ok hschema
      split at h
      · exact ⟨_, schema, ‹_›, .inr ⟨slot, hkind, hregistered, .inl ⟨_, rfl, map_some_eq_ok h⟩⟩⟩
      · exact ⟨_, schema, ‹_›, .inr ⟨slot, hkind, hregistered, .inr (map_some_eq_ok h)⟩⟩
      · exact ⟨_, schema, ‹_›, .inr ⟨slot, hkind, hregistered, .inr (map_some_eq_ok h)⟩⟩
      · exact ⟨_, schema, ‹_›, .inr ⟨slot, hkind, hregistered, .inr (map_some_eq_ok h)⟩⟩
      · cases h
  · cases h

theorem isNested_of_buildChild {members : Json.Members} {here : Address} {f : Field} {n : Node}
    (h : buildChild registry here members f = .ok (some n)) : f.kind.isNested = true := by
  obtain ⟨j, schema, -, ⟨name, block, hkind, -⟩ | ⟨slot, hkind, -⟩⟩ := buildChild_eq_some h
  · rw [hkind]
    rfl
  · rw [hkind]
    rfl

theorem buildChild_eq_none {members : Json.Members} {here : Address} {f : Field}
    (h : buildChild registry here members f = .ok none) :
    f.kind.isNested = false ∨ Json.supplied? members f.name = none := by
  rw [buildChild] at h
  split at h
  · split at h
    · cases h
    · split at h
      · exact absurd h map_some_ne_none
      · cases h
  · split at h
    · cases h
    · split at h
      · exact absurd h map_some_ne_none
      · exact absurd h map_some_ne_none
      · exact absurd h map_some_ne_none
      · exact absurd h map_some_ne_none
      · cases h
  · next hnested hdistribution =>
    cases hj : Json.supplied? members f.name with
    | none => exact .inr rfl
    | some j =>
      cases hkind : f.kind with
      | nested name => exact absurd hj (hnested name j hkind)
      | distribution slot => exact absurd hj (hdistribution slot j hkind)
      | _ => exact .inl rfl

/-- What is below a section, given that smaller blocks become sections of the registry. -/
theorem built_buildChild {members : Json.Members} {here : Address} {f : Field} {n : Node}
    (hbuild : ∀ block : Json.Members, sizeOf block < sizeOf members → ∀ schema slot? below c,
      schema ∈ registry.schemas → build registry schema slot? below block = .ok c →
        Built registry c)
    (h : buildChild registry here members f = .ok (some n)) : Built registry n := by
  obtain ⟨j, schema, hj, hcase⟩ := buildChild_eq_some h
  rcases hcase with ⟨name, block, -, hschema, rfl, hn⟩ |
    ⟨slot, -, hschema, ⟨block, rfl, hn⟩ | hn⟩
  · have hmem := (Registry.mem_of_schema? hschema).1
    exact hbuild block (sizeOf_block_lt_of_supplied? hj) schema none _ n hmem hn
  · have hmem := (Registry.mem_of_schema? hschema).1
    exact hbuild block (sizeOf_block_lt_of_supplied? hj) schema (some slot) _ n hmem hn
  · exact built_fixed (Registry.mem_of_schema? hschema).1 hn

theorem buildChildren_cons_eq_ok {members : Json.Members} {here : Address} {f : Field}
    {fields : List Field} {children : List (String × Node)}
    (h : buildChildren registry here members (f :: fields) = .ok children) :
    ∃ child? rest, buildChild registry here members f = .ok child? ∧
      buildChildren registry here members fields = .ok rest ∧
      children = child?.toList.map (f.name, ·) ++ rest := by
  rw [buildChildren] at h
  cases hf : buildChild registry here members f with
  | error e =>
    rw [hf] at h
    cases h
  | ok child? =>
    rw [hf] at h
    cases hrest : buildChildren registry here members fields with
    | error e =>
      rw [hrest] at h
      cases h
    | ok rest =>
      rw [hrest] at h
      cases h
      exact ⟨child?, rest, rfl, rfl, rfl⟩

theorem buildChildren_eq_nil {members : Json.Members} {here : Address} {fields : List Field}
    {children : List (String × Node)} (hplain : ∀ f ∈ fields, f.kind.isNested = false)
    (h : buildChildren registry here members fields = .ok children) : children = [] := by
  induction fields generalizing children with
  | nil =>
    rw [buildChildren] at h
    cases h
    rfl
  | cons f fields ih =>
    obtain ⟨child?, rest, hf, hrest, rfl⟩ := buildChildren_cons_eq_ok h
    have hnil := ih (fun g hg => hplain g (List.mem_cons_of_mem _ hg)) hrest
    cases child? with
    | none => simpa using hnil
    | some n =>
      have hnested := isNested_of_buildChild hf
      rw [hplain f List.mem_cons_self] at hnested
      cases hnested

theorem built_buildChildren {members : Json.Members} {here : Address} {fields : List Field}
    {children : List (String × Node)}
    (hchild : ∀ f n, buildChild registry here members f = .ok (some n) → Built registry n)
    (h : buildChildren registry here members fields = .ok children) :
    List.Sublist (children.map Prod.fst) (fields.map Field.name) ∧
      ∀ p ∈ children, Built registry p.2 := by
  induction fields generalizing children with
  | nil =>
    rw [buildChildren] at h
    cases h
    exact ⟨List.nil_sublist _, by simp⟩
  | cons f fields ih =>
    obtain ⟨child?, rest, hf, hrest, rfl⟩ := buildChildren_cons_eq_ok h
    obtain ⟨hsub, hbelow⟩ := ih hrest
    cases child? with
    | none => exact ⟨hsub.cons _, hbelow⟩
    | some n =>
      refine ⟨hsub.cons_cons _, ?_⟩
      intro p hp
      cases hp with
      | head => exact hchild f n hf
      | tail _ hp => exact hbelow p hp

theorem build_eq_ok {schema : Schema} {slot? : Option Slot} {here : Address}
    {members : Json.Members} {n : Node} (h : build registry schema slot? here members = .ok n) :
    ∃ children, buildChildren registry here members schema.fields = .ok children ∧
      n = ⟨schema, slot?, members, children⟩ := by
  rw [build] at h
  split at h
  · cases h
  · split at h
    · cases h
    · next children hchildren =>
      cases h
      exact ⟨children, hchildren, rfl⟩

theorem built_build {schema : Schema} {slot? : Option Slot} {here : Address}
    {members : Json.Members} {n : Node} (hschema : schema ∈ registry.schemas)
    (h : build registry schema slot? here members = .ok n) : Built registry n := by
  induction hsize : sizeOf members using Nat.strongRecOn generalizing schema slot? here members n with
  | _ size ih =>
    obtain ⟨children, hchildren, rfl⟩ := build_eq_ok h
    have hbuild : ∀ block : Json.Members, sizeOf block < sizeOf members →
        ∀ schema slot? below c, schema ∈ registry.schemas →
          build registry schema slot? below block = .ok c → Built registry c := by
      intro block hlt schema slot? below c hschema hc
      exact ih _ (hsize ▸ hlt) hschema hc rfl
    obtain ⟨hsub, hbelow⟩ := built_buildChildren (fun f n => built_buildChild hbuild) hchildren
    exact .mk hschema hsub hbelow

theorem ofDescription_eq_ok {members : Json.Members} {root : Node}
    (h : ofDescription registry members = .ok root) :
    ∃ schema, registry.schema? Schema.rootName = some schema ∧
      build registry schema none [] members = .ok root := by
  unfold ofDescription at h
  cases hschema : requireSchema registry Schema.rootName "<document>" with
  | error e =>
    rw [hschema] at h
    cases h
  | ok schema =>
    rw [hschema] at h
    exact ⟨schema, requireSchema_eq_ok hschema, h⟩

theorem built_ofDescription {members : Json.Members} {root : Node}
    (h : ofDescription registry members = .ok root) : Built registry root := by
  obtain ⟨schema, hschema, hbuild⟩ := ofDescription_eq_ok h
  exact built_build (Registry.mem_of_schema? hschema).1 hbuild

theorem Built.mem_schemas {n : Node} (h : Built registry n) : n.schema ∈ registry.schemas := by
  cases h with
  | mk known _ _ => exact known

theorem Built.of_at? {n c : Node} (h : Built registry n) {here : Address}
    (hat : n.at? here = some c) : Built registry c := by
  induction here generalizing n with
  | nil =>
    cases hat
    exact h
  | cons name rest ih =>
    obtain ⟨d, hd, hc⟩ := Option.bind_eq_some_iff.mp hat
    cases h with
    | mk _ _ below =>
      exact ih (below _ (mem_of_lookup hd)) hc

theorem Built.names_nodup {n : Node} (h : Built registry n) : (n.children.map Prod.fst).Nodup := by
  cases h with
  | mk _ ordered _ => exact ordered.nodup (Schema.names_nodup _)

theorem Built.child?_of_mem {n c : Node} (h : Built registry n) {name : String}
    (hmem : (name, c) ∈ n.children) : n.child? name = some c :=
  lookup_of_nodup h.names_nodup hmem

end Node
end CrowdScenario

import CrowdScenario.Proofs.Encoding.Agreement

/-!
# Sections and the fields they are in

The section in a field depends on what the author supplied in that field and on nothing else. Every
section of a tree but the first is the one in a field of the section above it.
-/

namespace CrowdScenario
namespace Node

variable {registry : Registry}

def childOf (registry : Registry) (here : Address) (f : Field) (supplied? : Option Json) :
    Except CompileError (Option Node) :=
  let below := here ++ [f.name]
  match f.kind, supplied? with
  | .nested name, some j =>
    match requireSchema registry name below.path with
    | .error e => .error e
    | .ok schema =>
      match j with
      | .object block => (build registry schema none below block).map some
      | j => .error (.invalidValue below.path "section block" j.compact)
  | .distribution slot, some j =>
    match requireSchema registry Schema.distributionName below.path with
    | .error e => .error e
    | .ok schema =>
      match j with
      | .object block => (build registry schema (some slot) below block).map some
      | .integer n => (fixed schema slot below (.integer n)).map some
      | .float x => (fixed schema slot below (.float x)).map some
      | .string s => (fixed schema slot below (.string s)).map some
      | j => .error (.invalidValue below.path "distribution block, number or reference" j.compact)
  | _, _ => .ok none

theorem buildChild_eq_childOf (here : Address) (members : Json.Members) (f : Field) :
    buildChild registry here members f = childOf registry here f (Json.supplied? members f.name) := by
  rw [buildChild]
  split
  · next name j hkind hj =>
    simp only [childOf, hkind, hj]
    cases requireSchema registry name (here ++ [f.name]).path with
    | error e => rfl
    | ok schema => cases j <;> rfl
  · next slot j hkind hj =>
    simp only [childOf, hkind, hj]
    cases requireSchema registry Schema.distributionName (here ++ [f.name]).path with
    | error e => rfl
    | ok schema => cases j <;> rfl
  · next hnested hdistribution =>
    unfold childOf
    split
    · next name j hkind hj => exact absurd hj (hnested name j hkind)
    · next slot j hkind hj => exact absurd hj (hdistribution slot j hkind)
    · rfl

theorem childOf_none (here : Address) (f : Field) : childOf registry here f none = .ok none := by
  unfold childOf
  split
  · next _ _ _ hj => cases hj
  · next _ _ _ hj => cases hj
  · rfl

theorem checkMembers_eq_ok {schema : Schema} {here : Address} {members : Json.Members} :
    checkMembers schema here members = .ok () ↔ ∀ p ∈ members, schema.field? p.1 ≠ none := by
  have hdeclared : undeclared? schema members = none ↔ ∀ p ∈ members, schema.field? p.1 ≠ none := by
    simp [undeclared?, ← Option.isSome_iff_ne_none, Option.isSome_iff_exists]
  rw [← hdeclared, checkMembers]
  cases undeclared? schema members <;> simp

theorem members_of_block {here : Address} {members block : Json.Members} {f : Field} {c : Node}
    (h : buildChild registry here members f = .ok (some c))
    (hblock : Json.supplied? members f.name = some (.object block)) :
    c.members = block ∧
      buildChildren registry (here ++ [f.name]) block c.schema.fields = .ok c.children := by
  have hbuilt : ∃ schema slot?,
      build registry schema slot? (here ++ [f.name]) block = .ok c := by
    rw [buildChild_eq_childOf, hblock] at h
    cases hkind : f.kind with
    | nested name =>
      simp only [childOf, hkind] at h
      cases hschema : requireSchema registry name (here ++ [f.name]).path with
      | error e => simp [hschema] at h
      | ok schema =>
        simp only [hschema] at h
        exact ⟨schema, none, map_some_eq_ok h⟩
    | distribution slot =>
      simp only [childOf, hkind] at h
      cases hschema : requireSchema registry Schema.distributionName (here ++ [f.name]).path with
      | error e => simp [hschema] at h
      | ok schema =>
        simp only [hschema] at h
        exact ⟨schema, some slot, map_some_eq_ok h⟩
    | _ => simp [childOf, hkind] at h
  obtain ⟨schema, slot?, hbuild⟩ := hbuilt
  obtain ⟨children, hchildren, rfl⟩ := build_eq_ok hbuild
  exact ⟨rfl, hchildren⟩

theorem fixed_of_value {here : Address} {members : Json.Members} {f : Field} {c : Node} {j : Json}
    (h : buildChild registry here members f = .ok (some c))
    (hvalue : Json.supplied? members f.name = some j) (hj : ∀ block, j ≠ .object block) :
    ∃ schema slot, f.kind = .distribution slot ∧ c = ⟨schema, some slot, fixedBlock j, []⟩ := by
  obtain ⟨j', schema, hj', hcase⟩ := buildChild_eq_some h
  rw [hvalue] at hj'
  cases hj'
  rcases hcase with ⟨name, block, -, -, hblock, -⟩ | ⟨slot, hkind, -, ⟨block, hblock, -⟩ | hfixed⟩
  · exact absurd hblock (hj block)
  · exact absurd hblock (hj block)
  · exact ⟨schema, slot, hkind, fixed_eq_ok hfixed⟩

theorem buildChildren_congr {here : Address} {members members' : Json.Members}
    {fields : List Field}
    (h : ∀ f ∈ fields, Json.supplied? members f.name = Json.supplied? members' f.name) :
    buildChildren registry here members fields = buildChildren registry here members' fields := by
  induction fields with
  | nil => rw [buildChildren, buildChildren]
  | cons f fields ih =>
    have hrest := ih fun g hg => h g (List.mem_cons_of_mem _ hg)
    rw [buildChildren, buildChildren, buildChild_eq_childOf, buildChild_eq_childOf,
      h f List.mem_cons_self, hrest]

theorem buildChildren_cons_eq_ok_iff {here : Address} {members : Json.Members} {f : Field}
    {fields : List Field} {children : List (String × Node)} :
    buildChildren registry here members (f :: fields) = .ok children ↔
      ∃ child? rest, buildChild registry here members f = .ok child? ∧
        buildChildren registry here members fields = .ok rest ∧
        children = child?.toList.map (f.name, ·) ++ rest := by
  refine ⟨buildChildren_cons_eq_ok, fun h => ?_⟩
  obtain ⟨child?, rest, hf, hrest, rfl⟩ := h
  rw [buildChildren, hf, hrest]

theorem buildChildren_append {here : Address} {members : Json.Members} {fields fields' : List Field}
    {children : List (String × Node)} :
    buildChildren registry here members (fields ++ fields') = .ok children ↔
      ∃ before behind, buildChildren registry here members fields = .ok before ∧
        buildChildren registry here members fields' = .ok behind ∧ children = before ++ behind := by
  induction fields generalizing children with
  | nil =>
    rw [List.nil_append, buildChildren]
    constructor
    · intro h
      exact ⟨[], children, rfl, h, rfl⟩
    · intro h
      obtain ⟨before, behind, hbefore, hbehind, rfl⟩ := h
      cases hbefore
      exact hbehind
  | cons f fields ih =>
    rw [List.cons_append, buildChildren_cons_eq_ok_iff]
    constructor
    · intro h
      obtain ⟨child?, rest, hf, hrest, rfl⟩ := h
      obtain ⟨before, behind, hbefore, hbehind, rfl⟩ := ih.mp hrest
      exact ⟨_, behind, buildChildren_cons_eq_ok_iff.mpr ⟨child?, before, hf, hbefore, rfl⟩,
        hbehind, (List.append_assoc ..).symm⟩
    · intro h
      obtain ⟨before, behind, hbefore, hbehind, rfl⟩ := h
      obtain ⟨child?, rest, hf, hrest, rfl⟩ := buildChildren_cons_eq_ok hbefore
      exact ⟨child?, rest ++ behind, hf, ih.mpr ⟨rest, behind, hrest, hbehind, rfl⟩,
        List.append_assoc ..⟩

theorem field_of_mem_children {here : Address} {members : Json.Members} {fields : List Field}
    {children : List (String × Node)} {name : String} {c : Node}
    (h : buildChildren registry here members fields = .ok children) (hc : (name, c) ∈ children) :
    ∃ f ∈ fields, f.name = name ∧ buildChild registry here members f = .ok (some c) := by
  induction fields generalizing children with
  | nil =>
    rw [buildChildren] at h
    cases h
    cases hc
  | cons f fields ih =>
    obtain ⟨child?, rest, hf, hrest, rfl⟩ := buildChildren_cons_eq_ok h
    rcases List.mem_append.mp hc with hc | hc
    · cases child? with
      | none => cases hc
      | some n =>
        cases List.mem_singleton.mp hc
        exact ⟨f, List.mem_cons_self, rfl, hf⟩
    · obtain ⟨g, hg, hname, hbuild⟩ := ih hrest hc
      exact ⟨g, List.mem_cons_of_mem _ hg, hname, hbuild⟩

theorem child_of_mem_fields {here : Address} {members : Json.Members} {fields : List Field}
    {children : List (String × Node)} {f : Field}
    (h : buildChildren registry here members fields = .ok children) (hf : f ∈ fields) :
    ∃ child?, buildChild registry here members f = .ok child? ∧
      ∀ c, child? = some c → (f.name, c) ∈ children := by
  obtain ⟨before, behind, rfl⟩ := List.append_of_mem hf
  obtain ⟨first, rest, -, hrest, rfl⟩ := buildChildren_append.mp h
  obtain ⟨child?, last, hchild, -, rfl⟩ := buildChildren_cons_eq_ok hrest
  refine ⟨child?, hchild, fun c hc => ?_⟩
  rw [hc]
  exact List.mem_append_right _ List.mem_cons_self

/-- The sections below one are those in its fields, as far as there are any. -/
def Grown (registry : Registry) (here : Address) (n : Node) : Prop :=
  buildChildren registry here n.members n.schema.fields = .ok n.children ∨ n.children = []

theorem Grown.field_of_child {here : Address} {n c : Node} {name : String}
    (h : Grown registry here n) (hc : n.child? name = some c) :
    ∃ f ∈ n.schema.fields, f.name = name ∧ buildChild registry here n.members f = .ok (some c) := by
  have hmem := mem_of_lookup hc
  cases h with
  | inl hbuild => exact field_of_mem_children hbuild hmem
  | inr hnil =>
    rw [hnil] at hmem
    cases hmem

theorem grown_of_buildChild {here : Address} {members : Json.Members} {f : Field} {c : Node}
    (h : buildChild registry here members f = .ok (some c)) :
    Grown registry (here ++ [f.name]) c := by
  obtain ⟨j, schema, -, hcase⟩ := buildChild_eq_some h
  rcases hcase with ⟨name, block, -, -, -, hbuild⟩ | ⟨slot, -, -, ⟨block, -, hbuild⟩ | hfixed⟩
  · obtain ⟨children, hchildren, rfl⟩ := build_eq_ok hbuild
    exact .inl hchildren
  · obtain ⟨children, hchildren, rfl⟩ := build_eq_ok hbuild
    exact .inl hchildren
  · rw [fixed_eq_ok hfixed]
    exact .inr rfl

theorem Grown.of_at? {here below : Address} {n c : Node} (h : Grown registry here n)
    (hc : n.at? below = some c) : Grown registry (here ++ below) c := by
  induction below generalizing n here with
  | nil =>
    cases hc
    rwa [List.append_nil]
  | cons name below ih =>
    obtain ⟨d, hd, hbelow⟩ := Option.bind_eq_some_iff.mp hc
    obtain ⟨f, -, rfl, hbuild⟩ := h.field_of_child hd
    have hgrown := ih (grown_of_buildChild hbuild) hbelow
    rwa [List.append_assoc, List.singleton_append] at hgrown

theorem grown_ofDescription {members : Json.Members} {root : Node}
    (h : ofDescription registry members = .ok root) : Grown registry [] root := by
  obtain ⟨schema, -, hbuild⟩ := ofDescription_eq_ok h
  obtain ⟨children, hchildren, rfl⟩ := build_eq_ok hbuild
  exact .inl hchildren

theorem field_of_at? {members : Json.Members} {root : Node}
    (h : ofDescription registry members = .ok root) {here : Address} {name : String} {c : Node}
    (hc : root.at? (here ++ [name]) = some c) :
    ∃ n, root.at? here = some n ∧ n.child? name = some c ∧
      ∃ f ∈ n.schema.fields, f.name = name ∧ buildChild registry here n.members f = .ok (some c) := by
  rw [at?_append] at hc
  obtain ⟨n, hn, hlast⟩ := Option.bind_eq_some_iff.mp hc
  obtain ⟨d, hd, hdc⟩ := Option.bind_eq_some_iff.mp hlast
  cases hdc
  have hgrown : Grown registry here n := (grown_ofDescription h).of_at? hn
  exact ⟨n, hn, hd, hgrown.field_of_child hd⟩

end Node
end CrowdScenario

import CrowdScenario.Proofs.Compilation.Alike

/-!
# Other ways to say the same

A member that is null may be left out, and a distribution given by a value alone may be written as the
normal distribution around that value. Neither is noticed, wherever in a description it is done and
however often (`interchangeable_without_nulls`, `interchangeable_spelled_out`).
-/

namespace CrowdScenario

def Edit.dropNull : Edit := fun _ schema _ members members' =>
  ∃ name, schema.field? name ≠ none ∧ Json.member? members name = some .null ∧
    members' = Json.eraseMember name members

theorem Json.supplied?_eraseMember_of_null {members : Members} {name : String}
    (h : member? members name = some .null) (name' : String) :
    supplied? (eraseMember name members) name' = supplied? members name' := by
  by_cases heq : name' = name
  · rw [heq, supplied?_eraseMember_self, supplied?, h]
    rfl
  · exact supplied?_eraseMember_of_ne heq

theorem Edit.dropNull_keepsSections (registry : Registry) : dropNull.KeepsSections registry where
  undeclared := by
    intro here schema slot? members members' h
    obtain ⟨name, hdeclared, -, rfl⟩ := h
    exact (Node.undeclared?_eraseMember hdeclared).symm
  child := by
    intro here schema slot? members members' h f hf
    obtain ⟨name, -, hnull, rfl⟩ := h
    rw [Node.buildChild_eq_childOf, Node.buildChild_eq_childOf,
      Json.supplied?_eraseMember_of_null hnull]

/-- A description says the same without the members that are null, in whichever blocks and however
many of them are left out. -/
theorem interchangeable_without_nulls {registry : Registry} {members members' : Json.Members}
    (h : Relation.ReflTransGen (Edit.dropNull.Once registry) members members') :
    Json.Interchangeable registry members members' := by
  refine Json.Interchangeable.of_steps (fun members members' hstep => ?_) h
  refine hstep.interchangeable (Edit.dropNull_keepsSections registry) fun root root' _ _ hedited => ?_
  refine Edit.alike_of_sameValues ?_ hedited
  intro here schema slot? members members' hdrop f _ _
  obtain ⟨name, -, hnull, rfl⟩ := hdrop
  exact (Json.supplied?_eraseMember_of_null hnull f.name).symm

namespace Sparse

def forward : Json.Members :=
  [("distribution", .string "normal"), ("mean", .float ⟨0x4000000000000000⟩),
    ("std_deviation", .null)]

def fov : Json.Members := [("backward", .null), ("forward", .object forward)]

/-- A field of view with members that are null at every depth. -/
def members : Json.Members := [("fov", .object fov), ("scene", .null)]

def forward' : Json.Members :=
  [("distribution", .string "normal"), ("mean", .float ⟨0x4000000000000000⟩)]

def fov' : Json.Members := [("forward", .object forward')]

def members' : Json.Members := [("fov", .object fov')]

def compiled : Compiled where
  bytes := [1, 5, 0, 1, 2, 0, 0, 0, 0, 0, 0, 0, 64, 0, 0, 0, 0, 0, 0, 0, 0]
  recordCount := 1

end Sparse

open Sparse in
theorem interchangeable_without_nulls_sparse :
    Relation.ReflTransGen (Edit.dropNull.Once .standard) members members' ∧
      compile .standard .standard (fun _ => .ok []) ⟨members, none⟩ = .ok compiled := by
  have hscene : Edit.dropNull.Once .standard members [("fov", .object fov)] :=
    ⟨.root, rfl, .here ⟨"scene", by decide, rfl, rfl⟩⟩
  have hbackward : Edit.dropNull.Once .standard [("fov", .object fov)]
      [("fov", .object [("forward", .object forward)])] :=
    ⟨.root, rfl, .nested (f := .nested "fov" "fov") (by decide) rfl Registry.schema?_fov rfl
      (.here ⟨"backward", by decide, rfl, rfl⟩)⟩
  have hforward : Edit.dropNull.Once .standard [("fov", .object [("forward", .object forward)])]
      members' :=
    ⟨.root, rfl, .nested (f := .nested "fov" "fov") (by decide) rfl Registry.schema?_fov rfl
      (.distribution (f := .distribution "forward" .fovForward) (by decide) rfl
        Registry.schema?_distribution rfl (.here ⟨"std_deviation", by decide, rfl, rfl⟩))⟩
  have hsteps : Relation.ReflTransGen (Edit.dropNull.Once .standard) members members' :=
    ((Relation.ReflTransGen.single hscene).tail hbackward).tail hforward
  have hcompiled : compile .standard .standard (fun _ => .ok []) ⟨members', none⟩ =
      .ok compiled := by
    cbv
  refine ⟨hsteps, ?_⟩
  rw [(interchangeable_without_nulls hsteps).documents, hcompiled]

/-- A distribution given by a number or a text alone is written as the normal distribution around it,
without any deviation. -/
def Edit.spellValue : Edit := fun _ schema _ members members' =>
  ∃ f ∈ schema.fields, ∃ slot value, f.kind = .distribution slot ∧
    Json.supplied? members f.name = some value ∧
    (value.kindName = "number" ∨ value.kindName = "string") ∧
    members' = Json.insertMember f.name (.object [("distribution", .string "normal"),
      ("mean", value), ("std_deviation", .float .zero)]) members

/-- Without sections in distributions the block around a value is built like the value. -/
theorem Node.fixed_eq_build {registry : Registry} {schema : Schema}
    (hflat : ∀ f ∈ schema.fields, f.kind.isNested = false) (slot : Slot) (here : Address)
    (value : Json) :
    fixed schema slot here value = build registry schema (some slot) here (fixedBlock value) := by
  rw [build, fixed]
  cases checkMembers schema here (fixedBlock value) with
  | error e => rfl
  | ok u =>
    rw [buildChildren_of_plain hflat]
    rfl

theorem Edit.spellValue_keepsSections {registry : Registry}
    (hflat : ∀ schema, registry.schema? Schema.distributionName = some schema →
      ∀ f ∈ schema.fields, f.kind.isNested = false) : spellValue.KeepsSections registry where
  undeclared := by
    intro here schema slot? members members' h
    obtain ⟨f, hf, slot, value, -, -, -, rfl⟩ := h
    exact (Node.undeclared?_insertMember (Schema.field?_ne_none hf) _).symm
  child := by
    intro here schema slot? members members' h g hg
    obtain ⟨f, hf, slot, value, hkind, hvalue, hform, rfl⟩ := h
    by_cases hsame : g = f
    · subst hsame
      rw [Node.buildChild_eq_childOf, Node.buildChild_eq_childOf, hvalue,
        Json.supplied?_insertMember_self rfl]
      simp only [Node.childOf, hkind, Node.requireSchema]
      cases hknown : registry.schema? Schema.distributionName with
      | none => rfl
      | some inner =>
        have hfixed : Node.fixed inner slot (here ++ [g.name]) value =
            Node.build registry inner (some slot) (here ++ [g.name])
              [("distribution", .string "normal"), ("mean", value),
                ("std_deviation", .float .zero)] :=
          Node.fixed_eq_build (hflat inner hknown) slot (here ++ [g.name]) value
        cases value with
        | integer n => exact congrArg (Except.map some) hfixed
        | float x => exact congrArg (Except.map some) hfixed
        | string s => exact congrArg (Except.map some) hfixed
        | _ => simp [Json.kindName] at hform
    · rw [Node.buildChild_eq_childOf, Node.buildChild_eq_childOf,
        ← sameBut_insertMember hf _ members g hg hsame]

/-- Where no distribution has sections of its own, a value alone stands for the normal distribution
around it, in whichever fields and however many of them it is spelled out. -/
theorem interchangeable_spelled_out {registry : Registry} {members members' : Json.Members}
    (hflat : ∀ schema, registry.schema? Schema.distributionName = some schema →
      ∀ f ∈ schema.fields, f.kind.isNested = false)
    (h : Relation.ReflTransGen (Edit.spellValue.Once registry) members members') :
    Json.Interchangeable registry members members' := by
  refine Json.Interchangeable.of_steps (fun members members' hstep => ?_) h
  refine hstep.interchangeable (Edit.spellValue_keepsSections hflat) fun root root' _ _ hedited => ?_
  refine Edit.alike_of_sameValues ?_ hedited
  intro here schema slot? members members' hspell g hg hplain
  obtain ⟨f, hf, slot, value, hkind, -, -, rfl⟩ := hspell
  have hne : g ≠ f := by
    intro heq
    rw [heq, hkind] at hplain
    cases hplain
  exact Edit.sameBut_insertMember hf _ members g hg hne

namespace Facing

def two : Json := .float ⟨0x4000000000000000⟩

/-- A field of view to the front, and one to the back that is as wide. -/
def members : Json.Members :=
  [("fov", .object [("backward", .string "ref:fov.forward.mean"), ("forward", two)])]

def around (value : Json) : Json :=
  .object [("distribution", .string "normal"), ("mean", value), ("std_deviation", .float .zero)]

def members' : Json.Members :=
  [("fov", .object [("backward", around (.string "ref:fov.forward.mean")),
    ("forward", around two)])]

def compiled : Compiled where
  bytes := [1, 5, 0, 1, 2, 0, 0, 0, 0, 0, 0, 0, 64, 0, 0, 0, 0, 0, 0, 0, 0,
    5, 0, 2, 2, 0, 0, 0, 0, 0, 0, 0, 64, 0, 0, 0, 0, 0, 0, 0, 0]
  recordCount := 2

end Facing

open Facing in
theorem interchangeable_spelled_out_facing :
    (∀ schema, Registry.standard.schema? Schema.distributionName = some schema →
      ∀ f ∈ schema.fields, f.kind.isNested = false) ∧
    Relation.ReflTransGen (Edit.spellValue.Once .standard) members members' ∧
      compile .standard .standard (fun _ => .ok []) ⟨members', none⟩ = .ok compiled := by
  have hflat : ∀ schema, Registry.standard.schema? Schema.distributionName = some schema →
      ∀ f ∈ schema.fields, f.kind.isNested = false := by
    intro schema hschema
    cases hschema
    decide
  have hforward : Edit.spellValue.Once .standard members
      [("fov", .object [("backward", .string "ref:fov.forward.mean"),
        ("forward", around two)])] :=
    ⟨.root, rfl, .nested (f := .nested "fov" "fov") (by decide) rfl Registry.schema?_fov rfl
      (.here ⟨.distribution "forward" .fovForward, by decide, ⟨.fovForward, []⟩, two, rfl, rfl,
        .inl rfl, rfl⟩)⟩
  have hbackward : Edit.spellValue.Once .standard
      [("fov", .object [("backward", .string "ref:fov.forward.mean"),
        ("forward", around two)])] members' :=
    ⟨.root, rfl, .nested (f := .nested "fov" "fov") (by decide) rfl Registry.schema?_fov rfl
      (.here ⟨.distribution "backward" .fovBackward, by decide, ⟨.fovBackward, []⟩,
        .string "ref:fov.forward.mean", rfl, rfl, .inr rfl, rfl⟩)⟩
  have hsteps : Relation.ReflTransGen (Edit.spellValue.Once .standard) members members' :=
    (Relation.ReflTransGen.single hforward).tail hbackward
  have hcompiled : compile .standard .standard (fun _ => .ok []) ⟨members, none⟩ =
      .ok compiled := by
    cbv
  refine ⟨hflat, hsteps, ?_⟩
  rw [← (interchangeable_spelled_out hflat hsteps).documents, hcompiled]

end CrowdScenario

import CrowdScenario.Proofs.Tree.Children
import CrowdScenario.Proofs.Tree.Outline
import Mathlib.Data.List.Forall2

/-!
# Edits of descriptions

An edit changes the members of one block of a description, be it the description itself or a block
somewhere below it. If it leaves the sections below the block as they are, then the edited
description has a tree with the same outline, or fails in the same way (`Edit.Once.edited`).
-/

namespace CrowdScenario

namespace Schema

variable {schema : Schema} {f g : Field}

theorem field?_ne_none (hf : f ∈ schema.fields) : schema.field? f.name ≠ none := by
  rw [schema.field?_of_mem hf]
  exact Option.some_ne_none f

theorem name_ne_of_mem (hf : f ∈ schema.fields) (hg : g ∈ schema.fields) (h : g ≠ f) :
    g.name ≠ f.name := by
  intro hname
  have hfield := schema.field?_of_mem hg
  rw [hname, schema.field?_of_mem hf] at hfield
  exact h (Option.some.inj hfield).symm

end Schema

namespace Registry

theorem schema?_scene : standard.schema? "scene" = some .scene := rfl

theorem schema?_spawn : standard.schema? "spawn" = some .spawn := rfl

theorem schema?_fov : standard.schema? "fov" = some .fov := rfl

theorem schema?_distribution :
    standard.schema? Schema.distributionName = some .distribution := rfl

end Registry

namespace Json

def eraseMember (name : String) (members : Members) : Members :=
  members.filter fun m => m.1 ≠ name

section
variable {members : Members} {name name' : String} {value : Json}

theorem member?_cons :
    member? ((name, value) :: members) name' =
      if name' = name then some value else member? members name' := by
  by_cases h : name' = name
  · simp only [member?, List.lookup_cons, beq_iff_eq.mpr h, if_pos h]
  · simp only [member?, List.lookup_cons, beq_eq_false_iff_ne.mpr h, if_neg h]

theorem member?_insertMember :
    member? (insertMember name value members) name' =
      if name' = name then some value else member? members name' := by
  induction members with
  | nil => rw [insertMember, member?_cons]
  | cons m rest ih =>
    rcases m with ⟨first, j⟩
    rw [insertMember]
    split
    · next hname =>
      subst hname
      rw [member?_cons, member?_cons]
      by_cases h : name' = name <;> simp only [h, if_true, if_false]
    · split
      · rw [member?_cons]
      · next hname _ =>
        rw [member?_cons, member?_cons, ih]
        by_cases h : name' = first
        · have hne : ¬ first = name := fun heq => hname heq.symm
          simp only [h, hne, if_true, if_false]
        · simp only [h, if_false]

theorem member?_eraseMember :
    member? (eraseMember name members) name' =
      if name' = name then none else member? members name' := by
  induction members with
  | nil => simp [eraseMember, member?]
  | cons m rest ih =>
    rcases m with ⟨first, j⟩
    unfold eraseMember at ih ⊢
    by_cases hfirst : first = name
    · rw [List.filter_cons_of_neg (by simpa using hfirst), ih, member?_cons, hfirst]
      by_cases h : name' = name <;> simp only [h, if_true, if_false]
    · rw [List.filter_cons_of_pos (by simpa using hfirst), member?_cons, member?_cons, ih]
      by_cases h : name' = first
      · simp only [h, hfirst, if_true, if_false]
      · simp only [h, if_false]

theorem supplied?_insertMember_of_ne (h : name' ≠ name) :
    supplied? (insertMember name value members) name' = supplied? members name' := by
  rw [supplied?, member?_insertMember, if_neg h, supplied?]

theorem supplied?_insertMember_self (h : value.isNull = false) :
    supplied? (insertMember name value members) name = some value := by
  rw [supplied?, member?_insertMember, if_pos rfl]
  simp [h]

theorem supplied?_eraseMember_of_ne (h : name' ≠ name) :
    supplied? (eraseMember name members) name' = supplied? members name' := by
  rw [supplied?, member?_eraseMember, if_neg h, supplied?]

theorem supplied?_eraseMember_self : supplied? (eraseMember name members) name = none := by
  rw [supplied?, member?_eraseMember, if_pos rfl, Option.filter_none]

end

end Json

namespace Node

section
variable {schema : Schema} {members : Json.Members} {name : String}

theorem undeclared?_insertMember (hname : schema.field? name ≠ none) (value : Json) :
    undeclared? schema (Json.insertMember name value members) = undeclared? schema members := by
  have hdeclared : (schema.field? name).isNone = false :=
    Option.isNone_eq_false_iff.mpr (Option.isSome_iff_ne_none.mpr hname)
  unfold undeclared?
  induction members with
  | nil => simp [Json.insertMember, hdeclared]
  | cons m rest ih =>
    rcases m with ⟨first, j⟩
    rw [Json.insertMember]
    split
    · next heq =>
      subst heq
      rfl
    · split
      · simp only [List.map_cons, List.find?_cons, hdeclared]
      · simp only [List.map_cons, List.find?_cons, ih]

theorem undeclared?_eraseMember (hname : schema.field? name ≠ none) :
    undeclared? schema (Json.eraseMember name members) = undeclared? schema members := by
  have hdeclared : (schema.field? name).isNone = false :=
    Option.isNone_eq_false_iff.mpr (Option.isSome_iff_ne_none.mpr hname)
  unfold undeclared? Json.eraseMember
  induction members with
  | nil => rfl
  | cons m rest ih =>
    by_cases heq : m.1 = name
    · rw [List.filter_cons_of_neg (by simpa using heq), List.map_cons, List.find?_cons, heq,
        hdeclared, ih]
    · rw [List.filter_cons_of_pos (by simpa using heq), List.map_cons, List.map_cons,
        List.find?_cons, List.find?_cons, ih]

end

end Node

/-- What may become of the members of a block, given its address, its schema and the slot that it
fills. -/
abbrev Edit := Address → Schema → Option Slot → Json.Members → Json.Members → Prop

namespace Edit

/-- An edit of a block or of one that is supplied below it. -/
inductive Within (registry : Registry) (edit : Edit) :
    Address → Schema → Option Slot → Json.Members → Json.Members → Prop
  | here {here : Address} {schema : Schema} {slot? : Option Slot} {members members' : Json.Members}
      (change : edit here schema slot? members members') :
      Within registry edit here schema slot? members members'
  | nested {here : Address} {schema inner : Schema} {slot? : Option Slot} {f : Field}
      {title : String} {members block block' : Json.Members} (declared : f ∈ schema.fields)
      (kind : f.kind = .nested title) (known : registry.schema? title = some inner)
      (supplied : Json.supplied? members f.name = some (.object block))
      (below : Within registry edit (here ++ [f.name]) inner none block block') :
      Within registry edit here schema slot? members
        (Json.insertMember f.name (.object block') members)
  | distribution {here : Address} {schema inner : Schema} {slot? : Option Slot} {f : Field}
      {slot : Slot} {members block block' : Json.Members} (declared : f ∈ schema.fields)
      (kind : f.kind = .distribution slot)
      (known : registry.schema? Schema.distributionName = some inner)
      (supplied : Json.supplied? members f.name = some (.object block))
      (below : Within registry edit (here ++ [f.name]) inner (some slot) block block') :
      Within registry edit here schema slot? members
        (Json.insertMember f.name (.object block') members)

/-- An edit of one block of a description. -/
def Once (registry : Registry) (edit : Edit) (members members' : Json.Members) : Prop :=
  ∃ schema, registry.schema? Schema.rootName = some schema ∧
    Within registry edit [] schema none members members'

structure KeepsSections (registry : Registry) (edit : Edit) : Prop where
  undeclared : ∀ {here schema slot? members members'}, edit here schema slot? members members' →
    Node.undeclared? schema members = Node.undeclared? schema members'
  child : ∀ {here schema slot? members members'}, edit here schema slot? members members' →
    ∀ f ∈ schema.fields,
      Node.buildChild registry here members f = Node.buildChild registry here members' f

/-- Members that supply the same wherever a value is declared. -/
def SameValues (schema : Schema) (members members' : Json.Members) : Prop :=
  ∀ f ∈ schema.fields, f.kind.isNested = false →
    Json.supplied? members f.name = Json.supplied? members' f.name

/-- Members that supply the same for all fields but one. -/
def SameBut (schema : Schema) (f : Field) (members members' : Json.Members) : Prop :=
  ∀ g ∈ schema.fields, g ≠ f → Json.supplied? members g.name = Json.supplied? members' g.name

section
variable {schema : Schema} {f : Field}

theorem sameBut_insertMember (hf : f ∈ schema.fields) (value : Json) (members : Json.Members) :
    SameBut schema f members (Json.insertMember f.name value members) := fun _ hg hne =>
  (Json.supplied?_insertMember_of_ne (Schema.name_ne_of_mem hf hg hne)).symm

theorem sameBut_eraseMember (hf : f ∈ schema.fields) (members : Json.Members) :
    SameBut schema f members (Json.eraseMember f.name members) := fun _ hg hne =>
  (Json.supplied?_eraseMember_of_ne (Schema.name_ne_of_mem hf hg hne)).symm

end

end Edit

/-- Two trees with one outline whose blocks are edited or supply the same values. -/
structure Node.Edited (edit : Edit) (here : Address) (n n' : Node) : Prop where
  outline : n.outline = n'.outline
  members : ∀ below c c', n.at? below = some c → n'.at? below = some c' →
    Edit.SameValues c.schema c.members c'.members ∨
      edit (here ++ below) c.schema c.slot? c.members c'.members

theorem Node.Edited.refl (edit : Edit) (here : Address) (n : Node) : n.Edited edit here n where
  outline := rfl
  members below c c' hc hc' := by
    rw [hc] at hc'
    cases hc'
    exact .inl fun f _ _ => rfl

/-! ### Results -/

inductive Matches {α : Type} (related : α → α → Prop) :
    Except CompileError α → Except CompileError α → Prop
  | error (e : CompileError) : Matches related (.error e) (.error e)
  | ok {a a' : α} (h : related a a') : Matches related (.ok a) (.ok a')

namespace Matches

variable {α : Type} {related : α → α → Prop} {r r' : Except CompileError α}

theorem refl (hrefl : ∀ a, related a a) (r : Except CompileError α) : Matches related r r := by
  cases r with
  | error e => exact .error e
  | ok a => exact .ok (hrefl a)

theorem map_some (h : Matches related r r') :
    Matches (Option.Rel related) (r.map some) (r'.map some) := by
  cases h with
  | error e => exact .error e
  | ok h => exact .ok (.some h)

theorem map_eq {β : Type} (h : Matches related r r') {f : α → β}
    (hf : ∀ a a', related a a' → f a = f a') : r.map f = r'.map f := by
  cases h with
  | error e => rfl
  | ok h => exact congrArg Except.ok (hf _ _ h)

end Matches

namespace Node

variable {registry : Registry} {edit : Edit} {here : Address} {members members' : Json.Members}

theorem buildChild_of_plain {f : Field} (hplain : f.kind.isNested = false) :
    buildChild registry here members f = .ok none := by
  rw [buildChild_eq_childOf]
  unfold childOf
  split
  · next title _ hkind _ =>
    rw [hkind] at hplain
    cases hplain
  · next slot _ hkind _ =>
    rw [hkind] at hplain
    cases hplain
  · rfl

theorem buildChildren_of_plain {fields : List Field}
    (hplain : ∀ f ∈ fields, f.kind.isNested = false) :
    buildChildren registry here members fields = .ok [] := by
  induction fields with
  | nil => rw [buildChildren]
  | cons f fields ih =>
    rw [buildChildren, buildChild_of_plain (hplain f List.mem_cons_self),
      ih fun g hg => hplain g (List.mem_cons_of_mem _ hg)]
    rfl

theorem keepsSections_of_value
    (hedit : ∀ {here schema slot? members members'}, edit here schema slot? members members' →
      undeclared? schema members = undeclared? schema members' ∧
        ∃ f ∈ schema.fields, f.kind.isNested = false ∧ Edit.SameBut schema f members members') :
    edit.KeepsSections registry where
  undeclared h := (hedit h).1
  child := by
    intro here schema slot? members members' h g hg
    obtain ⟨-, f, -, hplain, hothers⟩ := hedit h
    by_cases hsame : g = f
    · rw [hsame, buildChild_of_plain hplain, buildChild_of_plain hplain]
    · rw [buildChild_eq_childOf, buildChild_eq_childOf, hothers g hg hsame]

abbrev EditedBelow (edit : Edit) (here : Address) :
    List (String × Node) → List (String × Node) → Prop :=
  List.Forall₂ fun p p' => p.1 = p'.1 ∧ p.2.Edited edit (here ++ [p.1]) p'.2

theorem matches_buildChildren {fields : List Field}
    (h : ∀ f ∈ fields, Matches (Option.Rel (Edited edit (here ++ [f.name])))
      (buildChild registry here members f) (buildChild registry here members' f)) :
    Matches (EditedBelow edit here) (buildChildren registry here members fields)
      (buildChildren registry here members' fields) := by
  induction fields with
  | nil =>
    rw [buildChildren, buildChildren]
    exact .ok .nil
  | cons f fields ih =>
    have hf := h f List.mem_cons_self
    have hrest := ih fun g hg => h g (List.mem_cons_of_mem _ hg)
    rw [buildChildren, buildChildren]
    generalize buildChild registry here members f = child at hf ⊢
    generalize buildChild registry here members' f = child' at hf ⊢
    generalize buildChildren registry here members fields = rest at hrest ⊢
    generalize buildChildren registry here members' fields = rest' at hrest ⊢
    cases hf with
    | error e => exact .error e
    | ok hchild =>
      cases hrest with
      | error e => exact .error e
      | ok hrest =>
        cases hchild with
        | none => exact .ok hrest
        | some hedited => exact .ok (.cons ⟨rfl, hedited⟩ hrest)

theorem EditedBelow.outlines {children children' : List (String × Node)}
    (h : EditedBelow edit here children children') : outlines children = outlines children' := by
  induction h with
  | nil => rfl
  | @cons p p' rest rest' hp _ ih =>
    rcases p with ⟨name, n⟩
    rcases p' with ⟨name', n'⟩
    obtain ⟨rfl, hedited⟩ := hp
    simp only [Node.outlines, hedited.outline, ih]

theorem EditedBelow.lookup {children children' : List (String × Node)}
    (h : EditedBelow edit here children children') {name : String} {c c' : Node}
    (hc : children.lookup name = some c) (hc' : children'.lookup name = some c') :
    c.Edited edit (here ++ [name]) c' := by
  induction h with
  | nil => cases hc
  | @cons p p' rest rest' hp _ ih =>
    rcases p with ⟨first, n⟩
    rcases p' with ⟨first', n'⟩
    obtain ⟨rfl, hedited⟩ := hp
    rw [List.lookup_cons] at hc hc'
    cases hfirst : name == first with
    | true =>
      simp only [hfirst] at hc hc'
      cases hc
      cases hc'
      rw [beq_iff_eq.mp hfirst]
      exact hedited
    | false =>
      simp only [hfirst] at hc hc'
      exact ih hc hc'

theorem edited_of_below {schema : Schema} {slot? : Option Slot}
    {children children' : List (String × Node)}
    (hmembers : Edit.SameValues schema members members' ∨ edit here schema slot? members members')
    (hbelow : EditedBelow edit here children children') :
    Edited edit here ⟨schema, slot?, members, children⟩ ⟨schema, slot?, members', children'⟩ where
  outline := by simp only [Node.outline, hbelow.outlines]
  members below c c' hc hc' := by
    cases below with
    | nil =>
      cases hc
      cases hc'
      rw [List.append_nil]
      exact hmembers
    | cons name rest =>
      obtain ⟨d, hd, hc⟩ := Option.bind_eq_some_iff.mp hc
      obtain ⟨d', hd', hc'⟩ := Option.bind_eq_some_iff.mp hc'
      have hedited := (hbelow.lookup hd hd').members rest c c' hc hc'
      rwa [List.append_assoc, List.singleton_append] at hedited

theorem matches_build {schema : Schema} {slot? : Option Slot}
    (hmembers : Edit.SameValues schema members members' ∨ edit here schema slot? members members')
    (hundeclared : undeclared? schema members = undeclared? schema members')
    (hchild : ∀ f ∈ schema.fields, Matches (Option.Rel (Edited edit (here ++ [f.name])))
      (buildChild registry here members f) (buildChild registry here members' f)) :
    Matches (Edited edit here) (build registry schema slot? here members)
      (build registry schema slot? here members') := by
  have hcheck : checkMembers schema here members = checkMembers schema here members' := by
    rw [checkMembers, hundeclared, checkMembers]
  have hchildren := matches_buildChildren hchild
  rw [build, build, hcheck]
  cases checkMembers schema here members' with
  | error e => exact .error e
  | ok u =>
    generalize buildChildren registry here members schema.fields = children at hchildren ⊢
    generalize buildChildren registry here members' schema.fields = children' at hchildren ⊢
    cases hchildren with
    | error e => exact .error e
    | ok hbelow => exact .ok (edited_of_below hmembers hbelow)

theorem optionRel_edited_refl (edit : Edit) (here : Address) (child? : Option Node) :
    Option.Rel (Edited edit here) child? child? := by
  cases child? with
  | none => exact .none
  | some c => exact .some (.refl edit here c)

theorem matches_build_below {schema : Schema} {slot? : Option Slot} {f : Field}
    {block' : Json.Members} (hf : f ∈ schema.fields) (hnested : f.kind.isNested = true)
    (hchild : Matches (Option.Rel (Edited edit (here ++ [f.name])))
      (buildChild registry here members f)
      (buildChild registry here (Json.insertMember f.name (.object block') members) f)) :
    Matches (Edited edit here) (build registry schema slot? here members)
      (build registry schema slot? here (Json.insertMember f.name (.object block') members)) := by
  have hsame := Edit.sameBut_insertMember hf (.object block') members
  refine matches_build (.inl fun g hg hplain => hsame g hg ?_) ?_ fun g hg => ?_
  · intro heq
    rw [heq, hnested] at hplain
    cases hplain
  · exact (undeclared?_insertMember (Schema.field?_ne_none hf) _).symm
  · by_cases heq : g = f
    · rw [heq]
      exact hchild
    · rw [buildChild_eq_childOf, buildChild_eq_childOf, hsame g hg heq]
      exact .refl (optionRel_edited_refl edit _) _

theorem buildChild_of_nested {f : Field} {title : String} {inner : Schema} {block : Json.Members}
    (hkind : f.kind = .nested title) (hknown : registry.schema? title = some inner)
    (hsupplied : Json.supplied? members f.name = some (.object block)) :
    buildChild registry here members f =
      (build registry inner none (here ++ [f.name]) block).map some := by
  simp only [buildChild_eq_childOf, childOf, hkind, hsupplied, requireSchema, hknown]

theorem buildChild_of_distribution {f : Field} {slot : Slot} {inner : Schema}
    {block : Json.Members} (hkind : f.kind = .distribution slot)
    (hknown : registry.schema? Schema.distributionName = some inner)
    (hsupplied : Json.supplied? members f.name = some (.object block)) :
    buildChild registry here members f =
      (build registry inner (some slot) (here ++ [f.name]) block).map some := by
  simp only [buildChild_eq_childOf, childOf, hkind, hsupplied, requireSchema, hknown]

theorem matches_of_within (hkeeps : edit.KeepsSections registry) {schema : Schema}
    {slot? : Option Slot} (h : edit.Within registry here schema slot? members members') :
    Matches (Edited edit here) (build registry schema slot? here members)
      (build registry schema slot? here members') := by
  induction h with
  | here change =>
    refine matches_build (.inr change) (hkeeps.undeclared change) fun f hf => ?_
    rw [hkeeps.child change f hf]
    exact .refl (optionRel_edited_refl edit _) _
  | nested declared kind known supplied _ ih =>
    refine matches_build_below declared (by rw [kind]; rfl) ?_
    rw [buildChild_of_nested kind known supplied,
      buildChild_of_nested kind known (Json.supplied?_insertMember_self rfl)]
    exact ih.map_some
  | distribution declared kind known supplied _ ih =>
    refine matches_build_below declared (by rw [kind]; rfl) ?_
    rw [buildChild_of_distribution kind known supplied,
      buildChild_of_distribution kind known (Json.supplied?_insertMember_self rfl)]
    exact ih.map_some

end Node

/-- An edit that keeps the sections of a block keeps the outline of the tree, or the failure of a
description without one. -/
theorem Edit.Once.edited {registry : Registry} {edit : Edit} {members members' : Json.Members}
    (h : edit.Once registry members members') (hkeeps : edit.KeepsSections registry) :
    Matches (Node.Edited edit []) (Node.ofDescription registry members)
      (Node.ofDescription registry members') := by
  obtain ⟨schema, hschema, hwithin⟩ := h
  have hroot : Node.requireSchema registry Schema.rootName "<document>" = .ok schema := by
    rw [Node.requireSchema, hschema]
  rw [Node.ofDescription, Node.ofDescription, hroot]
  exact Node.matches_of_within hkeeps hwithin

end CrowdScenario

import CrowdScenario.Proofs.Json.Ordered
import CrowdScenario.Proofs.Reference.Grammar
import CrowdScenario.Proofs.Tree.Positions
import Mathlib

/-!
# Building a tree as a visit

Building a tree fails with the first defect that a visit of the positions meets, and if there is none,
each position has its section (`build_visits_positions`). Of undeclared members the one with the least
name is to blame, for which objects must be ordered, as all that are read are
(`Description.ordered_of_parse`).
-/

namespace CrowdScenario

/-- The first name in a block, in the order of bytes, that a schema does not declare. -/
structure Schema.LeastUndeclared (s : Schema) (block : Json.Members) (name : String) : Prop where
  present : name ∈ block.map Prod.fst
  undeclared : s.field? name = none
  least : ∀ other ∈ block.map Prod.fst, s.field? other = none →
    Bytes.ofText name ≤ Bytes.ofText other

namespace Position

/-- What is wrong at a position. -/
inductive Defect (registry : Registry) (p : Position) : CompileError → Prop
  | unregistered (unknown : registry.schema? p.schemaName = none) :
      Defect registry p (.unknownSectionType p.schemaName p.place)
  | misshapen {schema : Schema} (known : registry.schema? p.schemaName = some schema)
      (form : p.block? = none) :
      Defect registry p (.invalidValue p.path p.expected p.written.compact)
  | undeclared {schema : Schema} {block : Json.Members} {name : String}
      (known : registry.schema? p.schemaName = some schema) (form : p.block? = some block)
      (member : schema.LeastUndeclared block name) :
      Defect registry p (.unknownField name (Node.displayPath schema p.path))

end Position

theorem Node.undeclared?_eq_some {schema : Schema} {block : Json.Members} {name : String}
    (hascending : (block.map Prod.fst).Pairwise fun a b => Bytes.ofText a < Bytes.ofText b) :
    undeclared? schema block = some name ↔ schema.LeastUndeclared block name := by
  rw [undeclared?, List.find?_eq_some_iff_append]
  constructor
  · rintro ⟨hundeclared, before, behind, hnames, hbefore⟩
    rw [hnames, List.pairwise_append, List.pairwise_cons] at hascending
    obtain ⟨-, ⟨hbehind, -⟩, -⟩ := hascending
    refine ⟨hnames ▸ List.mem_append_right _ List.mem_cons_self,
      Option.isNone_iff_eq_none.mp hundeclared, ?_⟩
    intro other hother hnone
    rw [hnames, List.mem_append, List.mem_cons] at hother
    rcases hother with hother | rfl | hother
    · have hdeclared := hbefore other hother
      rw [hnone] at hdeclared
      cases hdeclared
    · exact List.le_refl _
    · exact List.le_of_lt (hbehind other hother)
  · rintro ⟨hpresent, hundeclared, hleast⟩
    obtain ⟨before, behind, hnames⟩ := List.append_of_mem hpresent
    refine ⟨by rw [hundeclared]; rfl, before, behind, hnames, ?_⟩
    intro other hother
    -- a name before it is less, and so cannot be undeclared
    rw [hnames, List.pairwise_append] at hascending
    have hlt := hascending.2.2 other hother name List.mem_cons_self
    cases hdeclared : schema.field? other with
    | some f => rfl
    | none =>
      have hle := hleast other (hnames ▸ List.mem_append_left _ hother) hdeclared
      exact absurd hlt (List.not_lt.mpr hle)

namespace Position

variable {registry : Registry} {p q : Position}

theorem ascending_block? {block : Json.Members} (h : p.written.Ordered)
    (hblock : p.block? = some block) :
    (block.map Prod.fst).Pairwise fun a b => Bytes.ofText a < Bytes.ofText b := by
  have hfixed (j : Json) : ((Node.fixedBlock j).map Prod.fst).Pairwise
      fun a b => Bytes.ofText a < Bytes.ofText b := by
    have hnames : [Schema.kindField, DistributionKind.normal.firstName,
        DistributionKind.normal.secondName].Pairwise (· < ·) := by decide
    exact hnames.imp Bytes.ofText_lt_of_lt
  unfold block? at hblock
  split at hblock
  · next hwritten =>
    cases hblock
    rw [hwritten] at h
    cases h with
    | object ascending _ => exact ascending
  · cases hblock
    exact hfixed _
  · cases hblock
    exact hfixed _
  · cases hblock
    exact hfixed _
  · cases hblock

theorem ordered_of_supplied? {j j' : Json} {name : String} (h : j.Ordered)
    (hj : Json.supplied? j.inner name = some j') : j'.Ordered := by
  have hmem := mem_of_lookup (Option.filter_eq_some_iff.mp hj).1
  cases h with
  | object _ below => exact below _ hmem
  | _ => cases hmem

theorem ordered_of_mem_visit (h : p.written.Ordered) :
    ∀ q ∈ p.visit registry, q.written.Ordered := by
  refine forall_mem_visit h fun r hr q hq => ?_
  obtain ⟨schema, f, -, -, hf⟩ := mem_below.mp hq
  exact ordered_of_supplied? hr (inField_eq_some hf).2.1

/-- On ordered blocks, the defect that is found is the only one there is. -/
theorem defect?_eq_some (h : p.written.Ordered) {e : CompileError} :
    p.defect? registry = some e ↔ p.Defect registry e := by
  unfold defect?
  cases hschema : registry.schema? p.schemaName with
  | none =>
    constructor
    · intro he
      cases he
      exact .unregistered hschema
    · rintro (_ | ⟨known, _⟩ | ⟨known, _, _⟩)
      · rfl
      · rw [hschema] at known
        cases known
      · rw [hschema] at known
        cases known
  | some schema =>
    cases hblock : p.block? with
    | none =>
      constructor
      · intro he
        cases he
        exact .misshapen hschema hblock
      · rintro (unknown | ⟨_, _⟩ | ⟨_, form, _⟩)
        · rw [hschema] at unknown
          cases unknown
        · rfl
        · rw [hblock] at form
          cases form
    | some block =>
      have hleast {name : String} : Node.undeclared? schema block = some name ↔
          schema.LeastUndeclared block name :=
        Node.undeclared?_eq_some (ascending_block? h hblock)
      constructor
      · intro he
        obtain ⟨name, hname, rfl⟩ := Option.map_eq_some_iff.mp he
        exact .undeclared hschema hblock (hleast.mp hname)
      · rintro (unknown | ⟨_, form⟩ | ⟨known, form, member⟩)
        · rw [hschema] at unknown
          cases unknown
        · rw [hblock] at form
          cases form
        · rw [hschema] at known
          rw [hblock] at form
          cases known
          cases form
          exact Option.map_eq_some_iff.mpr ⟨_, hleast.mpr member, rfl⟩

structure Fits (registry : Registry) (p : Position) (n : Node) : Prop where
  schema : registry.schema? p.schemaName = some n.schema
  slot : n.slot? = p.slot?
  members : p.block? = some n.members

/-- A section that fits a position, with exactly the sections below it that the positions below it
ask for, in their order. -/
structure Mirrors (registry : Registry) (p : Position) (n : Node) : Prop
    extends Fits registry p n where
  children : List.Forall₂ (fun (q : Position) (child : String × Node) =>
    q.address = p.address ++ [child.1] ∧ q.path = joinPath p.path child.1 ∧
      q.Fits registry child.2) (p.below registry) n.children

theorem build_eq_ok {n : Node} (h : p.build registry = .ok n) :
    p.Fits registry n ∧
      Node.buildChildren registry p.address p.written.inner n.schema.fields = .ok n.children := by
  unfold build at h
  split at h
  · cases h
  · next schema hschema =>
    split at h
    · cases h
    · next block hblock =>
      split at h
      · cases h
      · split at h
        · cases h
        · next children hchildren =>
          cases h
          exact ⟨⟨hschema, rfl, hblock⟩, hchildren⟩

theorem forall₂_of_buildChildren {here : Address} {block : Json.Members} {fields : List Field}
    {children : List (String × Node)}
    (h : Node.buildChildren registry here block fields = .ok children) :
    List.Forall₂ (fun (q : Position) (child : String × Node) =>
      q.address = here ++ [child.1] ∧ q.build registry = .ok child.2)
      (fields.filterMap (inField here block)) children := by
  induction fields generalizing children with
  | nil =>
    rw [Node.buildChildren] at h
    cases h
    exact .nil
  | cons f fields ih =>
    obtain ⟨child?, rest, hchild, hrest, rfl⟩ := Node.buildChildren_cons_eq_ok h
    rw [buildChild_eq] at hchild
    cases hf : inField here block f with
    | none =>
      rw [hf] at hchild
      cases hchild
      rw [List.filterMap_cons_none hf]
      exact ih hrest
    | some q =>
      rw [hf] at hchild
      dsimp only at hchild
      cases hq : q.build registry with
      | error e =>
        rw [hq] at hchild
        cases hchild
      | ok n =>
        rw [hq] at hchild
        cases hchild
        rw [List.filterMap_cons_some hf]
        exact .cons ⟨(inField_eq_some hf).2.2.1, hq⟩ (ih hrest)

theorem children_of_build {n : Node} (h : p.build registry = .ok n) :
    List.Forall₂ (fun (q : Position) (child : String × Node) =>
      q.address = p.address ++ [child.1] ∧ q.build registry = .ok child.2)
      (p.below registry) n.children := by
  obtain ⟨hfits, hchildren⟩ := build_eq_ok h
  rw [below, hfits.schema]
  exact forall₂_of_buildChildren hchildren

theorem mirrors_of_build {n : Node} (h : p.build registry = .ok n) : p.Mirrors registry n := by
  refine ⟨(build_eq_ok h).1, (children_of_build h).imp ?_⟩
  rintro q child ⟨haddress, hbuild⟩
  refine ⟨haddress, ?_, (build_eq_ok hbuild).1⟩
  rw [path, haddress, Address.path_concat, path]

theorem exists_of_forall₂ {α β : Type} {R : α → β → Prop} {xs : List α} {ys : List β}
    (h : List.Forall₂ R xs ys) : (∀ x ∈ xs, ∃ y ∈ ys, R x y) ∧ ∀ y ∈ ys, ∃ x ∈ xs, R x y := by
  induction h with
  | nil => exact ⟨nofun, nofun⟩
  | cons hfirst _ ih =>
    obtain ⟨hleft, hright⟩ := ih
    constructor
    · refine List.forall_mem_cons.mpr ⟨⟨_, List.mem_cons_self, hfirst⟩, fun x hx => ?_⟩
      obtain ⟨y, hy, hxy⟩ := hleft x hx
      exact ⟨y, List.mem_cons_of_mem _ hy, hxy⟩
    · refine List.forall_mem_cons.mpr ⟨⟨_, List.mem_cons_self, hfirst⟩, fun y hy => ?_⟩
      obtain ⟨x, hx, hxy⟩ := hright y hy
      exact ⟨x, List.mem_cons_of_mem _ hx, hxy⟩

theorem mem_visit_self (p : Position) : p ∈ p.visit registry := by
  rw [visit_eq]
  exact List.mem_cons_self

theorem mem_visit_of_mem_below {r : Position} (hp : p ∈ r.visit registry)
    (hq : q ∈ p.below registry) : q ∈ r.visit registry := by
  induction r using visit.induct registry with
  | case1 r ih =>
    rw [visit_eq, List.mem_cons, List.mem_flatMap] at hp ⊢
    rcases hp with rfl | ⟨s, hs, hp⟩
    · exact .inr ⟨q, hq, mem_visit_self q⟩
    · exact .inr ⟨s, hs, ih ⟨s, hs⟩ hp⟩

theorem at?_of_mem_visit {root : Node} (hroot : Node.Built registry root) {m : Node}
    (hm : root.at? p.address = some m) (hbuild : p.build registry = .ok m) :
    ∀ q ∈ p.visit registry, ∃ n, root.at? q.address = some n ∧ q.build registry = .ok n := by
  refine forall_mem_visit ⟨m, hm, hbuild⟩ ?_
  rintro r ⟨n, hn, hr⟩ q hq
  obtain ⟨child, hchild, haddress, hchildbuild⟩ :=
    (exists_of_forall₂ (children_of_build hr)).1 q hq
  refine ⟨child.2, ?_, hchildbuild⟩
  rw [haddress]
  exact hroot.at?_child hn hchild

theorem visited_of_at? {root : Node} {r : Position} (hr : r.address = [])
    (hbuild : r.build registry = .ok root) {here : Address} {n : Node}
    (hn : root.at? here = some n) :
    ∃ p ∈ r.visit registry, p.address = here ∧ p.build registry = .ok n := by
  induction here using List.reverseRecOn generalizing n with
  | nil =>
    cases hn
    exact ⟨r, mem_visit_self r, hr, hbuild⟩
  | append_singleton above name ih =>
    rw [Node.at?_append] at hn
    obtain ⟨m, hm, hlast⟩ := Option.bind_eq_some_iff.mp hn
    obtain ⟨c, hc, hcn⟩ := Option.bind_eq_some_iff.mp hlast
    cases hcn
    obtain ⟨p, hp, rfl, hpbuild⟩ := ih hm
    obtain ⟨q, hq, haddress, hqbuild⟩ :=
      (exists_of_forall₂ (children_of_build hpbuild)).2 _ (mem_of_lookup hc)
    exact ⟨q, mem_visit_of_mem_below hp hq, haddress, hqbuild⟩

end Position

/-! ### The whole description -/

open Position in
/-- Building fails with the first defect of a visit. If there is none, each position has its section
at its address, and every section is at one. -/
theorem build_visits_positions {registry : Registry} {members : Json.Members}
    (hordered : (Json.object members).Ordered) :
    (∀ e, Node.ofDescription registry members = .error e ↔
      ∃ before p behind, (ofDocument members).visit registry = before ++ p :: behind ∧
        (∀ q ∈ before, ∀ e', ¬ q.Defect registry e') ∧ p.Defect registry e) ∧
    ((∃ root, Node.ofDescription registry members = .ok root) ↔
      ∀ p ∈ (ofDocument members).visit registry, ∀ e, ¬ p.Defect registry e) ∧
    ∀ root, Node.ofDescription registry members = .ok root →
      (∀ p ∈ (ofDocument members).visit registry,
        ∃ n, root.at? p.address = some n ∧ p.Mirrors registry n) ∧
      ∀ here n, root.at? here = some n →
        ∃ p ∈ (ofDocument members).visit registry, p.address = here ∧ p.Mirrors registry n := by
  have hdefect : ∀ p ∈ (ofDocument members).visit registry, ∀ e,
      p.defect? registry = some e ↔ p.Defect registry e := fun p hp e =>
    defect?_eq_some (ordered_of_mem_visit (p := ofDocument members) hordered p hp)
  have hsound : ∀ p ∈ (ofDocument members).visit registry,
      p.defect? registry = none ↔ ∀ e, ¬ p.Defect registry e := by
    intro p hp
    simp only [← hdefect p hp, Option.eq_none_iff_forall_ne_some, ne_eq]
  have hfailure : failure? (Node.ofDescription registry members) =
      ((ofDocument members).visit registry).findSome? (defect? registry) := by
    rw [ofDescription_eq]
    exact failure?_build (ofDocument members)
  refine ⟨fun e => ?_, ?_, fun root hroot => ⟨fun p hp => ?_, fun here n hn => ?_⟩⟩
  · rw [← failure?_eq_some, hfailure, List.findSome?_eq_some_iff]
    constructor
    · rintro ⟨before, p, behind, hvisit, hp, hbefore⟩
      rw [hvisit] at hdefect hsound
      refine ⟨before, p, behind, hvisit, fun q hq => ?_, ?_⟩
      · exact (hsound q (List.mem_append_left _ hq)).mp (hbefore q hq)
      · exact (hdefect p (List.mem_append_right _ List.mem_cons_self) e).mp hp
    · rintro ⟨before, p, behind, hvisit, hbefore, hp⟩
      rw [hvisit] at hdefect hsound
      refine ⟨before, p, behind, hvisit, ?_, fun q hq => ?_⟩
      · exact (hdefect p (List.mem_append_right _ List.mem_cons_self) e).mpr hp
      · exact (hsound q (List.mem_append_left _ hq)).mpr (hbefore q hq)
  · rw [← failure?_eq_none, hfailure, List.findSome?_eq_none_iff]
    exact forall₂_congr hsound
  · have hbuild := hroot
    rw [ofDescription_eq] at hbuild
    obtain ⟨n, hn, hp⟩ := at?_of_mem_visit (Node.built_ofDescription hroot) rfl hbuild p hp
    exact ⟨n, hn, mirrors_of_build hp⟩
  · rw [ofDescription_eq] at hroot
    obtain ⟨p, hp, haddress, hbuild⟩ := visited_of_at? rfl hroot hn
    exact ⟨p, hp, haddress, mirrors_of_build hbuild⟩

namespace Defective

def target : Json := .object [("speed", .bool true)]

def repulsion : Json := .object [("coeff", .integer 1), ("zeal", .null)]

/-- The target comes first in the order of declaration. -/
def members : Json.Members := [("forces", .object [("repulsion", repulsion), ("target", target)])]

/-- The author has the names in another order. -/
def text : String :=
  "\x7b\"forces\": \x7b\"target\": \x7b\"speed\": true\x7d, " ++
    "\"repulsion\": \x7b\"zeal\": null, \"coeff\": 1\x7d\x7d\x7d"

theorem parse_text : Description.parse text = .ok ⟨members, none⟩ := by
  cbv

end Defective

open Position Defective in
theorem build_visits_positions_forces :
    Description.parse text = .ok ⟨members, none⟩ ∧ (Json.object members).Ordered ∧
      Node.ofDescription .standard members = .error
        (.invalidValue "forces.target.speed" "distribution block, number or reference" "true") ∧
      ∃ before p behind, (ofDocument members).visit .standard = before ++ p :: behind ∧
        (∀ q ∈ before, ∀ e, ¬ q.Defect .standard e) ∧ p.Defect .standard
          (.invalidValue "forces.target.speed" "distribution block, number or reference" "true") := by
  have hordered : (Json.object members).Ordered := Description.ordered_of_parse parse_text
  have hfailure : Node.ofDescription .standard members = .error
      (.invalidValue "forces.target.speed" "distribution block, number or reference" "true") := by
    cbv
  exact ⟨parse_text, hordered, hfailure, ((build_visits_positions hordered).1 _).mp hfailure⟩

end CrowdScenario

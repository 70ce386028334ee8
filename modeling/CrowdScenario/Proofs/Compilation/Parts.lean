import CrowdScenario.Proofs.Compilation.Places
import CrowdScenario.Proofs.Encoding.Locality
import CrowdScenario.Proofs.Wire.Sections

/-!
# Parts of a description

The sections below the root are built one by one, and each writes a run of records of its own
(`run_of_children`). A tree falls into the sections before one of them, that section, and the sections
behind it.
-/

namespace CrowdScenario
namespace Layout

section
variable {ctx : Context} {root : Node} {members : Json.Members} {rs : List Record}

theorem owner_of_slot {c : Coordinate} {here : Address} {supplied? : Option Json}
    (h : IfSupplied supplied? (SlotRecord ctx root c here) rs) :
    ∀ r ∈ rs, r.coordinate.owner = c.owner := by
  cases supplied? with
  | none =>
    cases h
    exact nofun
  | some j =>
    obtain ⟨d, -, rfl⟩ := h
    intro r hr
    rw [List.mem_singleton.mp hr]
    rfl

theorem owner_of_group {f : Field} (hf : f ∈ Schema.root.fields) (hnested : f.kind.isNested = true)
    (h : groupKind ctx root members f rs) : ∀ r ∈ rs, f.name = r.coordinate.owner.name := by
  have hnamed : ∀ s : Section, (∀ r ∈ rs, r.coordinate.owner = s) → f.name = s.name →
      ∀ r ∈ rs, f.name = r.coordinate.owner.name := by
    intro s howner hname r hr
    rw [howner r hr, hname]
  simp only [Schema.root, List.mem_cons, List.not_mem_nil, or_false] at hf
  rcases hf with rfl | rfl | rfl | rfl | rfl | rfl | rfl
  · cases hnested
  · obtain ⟨file, geometry, scale, -, -, -, rfl⟩ := h
    refine hnamed .scene (List.forall_mem_append.mpr ⟨?_, by simp [Record.coordinate,
      Coordinate.sceneFile, Coordinate.sceneScale]⟩) rfl
    intro r hr
    obtain ⟨g, -, rfl⟩ := List.mem_map.mp hr
    exact Cursor.tag_coordinate_owner _
  · obtain ⟨x, t, tick, -, -, -, rfl⟩ := h
    refine hnamed .time ?_ rfl
    simp [Record.coordinate, Coordinate.endTime, Coordinate.tick]
  · obtain ⟨rate, arrivals, -, harrivals, rfl⟩ := h
    exact hnamed .spawn (List.forall_mem_cons.mpr ⟨rfl, owner_of_slot harrivals⟩) rfl
  · obtain ⟨target, repulsion, htarget, hrepulsion, rfl⟩ := h
    exact hnamed .forces
      (List.forall_mem_append.mpr ⟨owner_of_slot htarget, owner_of_slot hrepulsion⟩) rfl
  · obtain ⟨forward, backward, hforward, hbackward, rfl⟩ := h
    exact hnamed .fov
      (List.forall_mem_append.mpr ⟨owner_of_slot hforward, owner_of_slot hbackward⟩) rfl
  · obtain ⟨enabled, low, high, -, -, -, rfl⟩ := h
    refine hnamed .densityMap ?_ rfl
    simp [Record.coordinate, Coordinate.densityEnabled, Coordinate.densityMinimum,
      Coordinate.densityMaximum]

theorem owner_of_parts {kinds : Field → List Record → Prop} {fields : List Field}
    (hkinds : ∀ f ∈ fields, f.kind.isNested = true → ∀ new, kinds f new →
      ∀ r ∈ new, f.name = r.coordinate.owner.name) (h : Parts kinds members fields rs) :
    ∀ r ∈ rs, ∃ f ∈ fields, f.name = r.coordinate.owner.name := by
  induction fields generalizing rs with
  | nil =>
    cases h
    exact nofun
  | cons f fields ih =>
    obtain ⟨first, others, hfirst, hothers, rfl⟩ := h
    refine List.forall_mem_append.mpr ⟨fun r hr => ⟨f, List.mem_cons_self, ?_⟩, fun r hr => ?_⟩
    · split at hfirst
      · next hnested =>
        cases hj : Json.supplied? members f.name with
        | none =>
          rw [hj] at hfirst
          cases hfirst
          cases hr
        | some j =>
          rw [hj] at hfirst
          exact hkinds f List.mem_cons_self hnested first hfirst r hr
      · cases hfirst
        cases hr
    · obtain ⟨g, hg, howner⟩ :=
        ih (fun g hg => hkinds g (List.mem_cons_of_mem _ hg)) hothers r hr
      exact ⟨g, List.mem_cons_of_mem _ hg, howner⟩

/-- Sections below the root write a run of records that are theirs. -/
theorem run_of_children (hscene : root.SingleScene) {fields : List Field}
    {children : List (String × Node)} {w : Writer}
    (hfields : ∀ f ∈ fields, f ∈ Schema.root.fields)
    (hbuild : Node.buildChildren .standard [] members fields = .ok children)
    (hat : ∀ p ∈ children, root.at? [p.1] = some p.2)
    (h : Encoding.allPlain ctx (Plain.field ctx root []) (Encoding.stepsBelow [] children) =
      .ok w) :
    Document.Run (fun s => ∃ f ∈ fields, f.name = s.name) w.bytes w.recordCount := by
  have hadds : Adds (fun w => Plain.encodeChildren ctx [] children w (Plain.field ctx root []))
      (Parts (groupKind ctx root members) members fields) :=
    adds_encodeChildren (fun f hf c hc hchild =>
      adds_group hscene (hfields f hf) (hat (f.name, c) hc) hchild) hbuild
  -- Any document without records may stand before the run.
  have hopening := Writing.holds_simulation .flow
  have hwhole : Plain.encodeChildren ctx [] children (Writer.empty.simulation .flow)
      (Plain.field ctx root []) = .ok (Encoding.join (Writer.empty.simulation .flow) w) := by
    rw [Encoding.encodeChildren_eq, h]
    rfl
  obtain ⟨rs, ⟨⟨chunks, hwritten, hbytes⟩, hcount⟩, hparts⟩ := hadds _ _ _ _ hopening hwhole
  have hrun : w.bytes = chunks.flatten := (List.cons.inj hbytes).2
  refine ⟨rs, chunks, hwritten, hrun, ?_, ?_⟩
  · rw [List.nil_append] at hcount
    rw [← hcount, Encoding.join]
    exact (Nat.zero_add _).symm
  · exact owner_of_parts (fun f hf hnested new hnew =>
      owner_of_group (hfields f hf) hnested hnew) hparts

end

structure RootAround (s : Section) (before : List Field) (f : Field) (behind : List Field) :
    Prop where
  fields : Schema.root.fields = before ++ [f] ++ behind
  name : f.name = s.name
  nested : f.kind.isNested = true
  others_before : ∀ g ∈ before, g.name ≠ s.name
  others_behind : ∀ g ∈ behind, g.name ≠ s.name

theorem RootAround.mem {s : Section} {before : List Field} {f : Field} {behind : List Field}
    (h : RootAround s before f behind) : f ∈ Schema.root.fields := by
  rw [h.fields]
  simp

theorem exists_rootAround (s : Section) :
    ∃ before f behind, RootAround s before f behind := by
  have hdeclared : ∃ f ∈ Schema.root.fields, f.name = s.name ∧ f.kind.isNested = true := by
    cases s <;> decide
  obtain ⟨f, hf, hname, hnested⟩ := hdeclared
  obtain ⟨before, behind, hfields⟩ := List.append_of_mem hf
  have hnodup := Schema.root.names_nodup
  rw [hfields, List.map_append, List.map_cons, List.nodup_middle, List.nodup_cons,
    ← List.map_append] at hnodup
  have hothers : ∀ g ∈ before ++ behind, g.name ≠ s.name := by
    intro g hg heq
    rw [← hname] at heq
    exact hnodup.1 (heq ▸ List.mem_map_of_mem hg)
  rw [List.forall_mem_append] at hothers
  refine ⟨before, f, behind, ?_, hname, hnested, hothers.1, hothers.2⟩
  rw [hfields, List.append_assoc, List.singleton_append]

/-- The tree of a description, with the sections before the one in a field and behind it apart. -/
structure Split (members : Json.Members) (before : List Field) (f : Field) (behind : List Field)
    (root : Node) (first middle last : List (String × Node)) : Prop where
  built_first : Node.buildChildren .standard [] members before = .ok first
  built_middle : Node.buildChildren .standard [] members [f] = .ok middle
  built_last : Node.buildChildren .standard [] members behind = .ok last
  tree : root = ⟨.root, none, members, first ++ middle ++ last⟩

section
variable {members members' : Json.Members} {root root' : Node} {before behind : List Field}
  {f : Field} {first middle last first' middle' last' : List (String × Node)}

theorem ofDescription_eq_ok_iff (hfields : Schema.root.fields = before ++ [f] ++ behind) :
    Node.ofDescription .standard members = .ok root ↔
      Node.checkMembers .root [] members = .ok () ∧
        ∃ first middle last, Split members before f behind root first middle last := by
  have hbuild : Node.ofDescription .standard members =
      Node.build .standard .root none [] members := rfl
  rw [hbuild, Node.build]
  cases Node.checkMembers .root [] members with
  | error e => simp
  | ok u =>
    simp only [true_and]
    constructor
    · intro h
      cases hchildren : Node.buildChildren .standard [] members Schema.root.fields with
      | error e =>
        rw [hchildren] at h
        cases h
      | ok children =>
        rw [hchildren] at h
        cases h
        rw [hfields] at hchildren
        obtain ⟨inner, last, hinner, hlast, rfl⟩ := Node.buildChildren_append.mp hchildren
        obtain ⟨first, middle, hfirst, hmiddle, rfl⟩ := Node.buildChildren_append.mp hinner
        exact ⟨first, middle, last, hfirst, hmiddle, hlast, rfl⟩
    · intro h
      obtain ⟨first, middle, last, hfirst, hmiddle, hlast, rfl⟩ := h
      have hinner := Node.buildChildren_append.mpr ⟨first, middle, hfirst, hmiddle, rfl⟩
      have hchildren := Node.buildChildren_append.mpr ⟨_, last, hinner, hlast, rfl⟩
      rw [← hfields] at hchildren
      rw [hchildren]

theorem name_of_mem_children {fields : List Field} {children : List (String × Node)}
    (hbuild : Node.buildChildren .standard [] members fields = .ok children) :
    ∀ p ∈ children, ∃ g ∈ fields, g.name = p.1 := by
  intro p hp
  obtain ⟨g, hg, hname, -⟩ := Node.field_of_mem_children (c := p.2) hbuild hp
  exact ⟨g, hg, hname⟩

theorem Split.name_of_middle (h : Split members before f behind root first middle last) :
    ∀ p ∈ middle, p.1 = f.name := by
  intro p hp
  obtain ⟨g, hg, hname⟩ := name_of_mem_children h.built_middle p hp
  rw [← hname, List.mem_singleton.mp hg]

theorem Split.elsewhere (h : Split members before f behind root first middle last)
    (h' : Split members' before f behind root' first' middle' last')
    (hbefore : ∀ g ∈ before, Json.supplied? members g.name = Json.supplied? members' g.name)
    (hbehind : ∀ g ∈ behind, Json.supplied? members g.name = Json.supplied? members' g.name) :
    first = first' ∧ last = last' := by
  have hfirst := h.built_first
  rw [Node.buildChildren_congr hbefore, h'.built_first] at hfirst
  have hlast := h.built_last
  rw [Node.buildChildren_congr hbehind, h'.built_last] at hlast
  exact ⟨(Except.ok.inj hfirst).symm, (Except.ok.inj hlast).symm⟩

/-- A description that leaves the section out has the tree without it. -/
theorem Split.omitted (h : Split members before f behind root first middle last)
    (hbefore : ∀ g ∈ before, Json.supplied? members g.name = Json.supplied? members' g.name)
    (hbehind : ∀ g ∈ behind, Json.supplied? members g.name = Json.supplied? members' g.name)
    (hnone : Json.supplied? members' f.name = none) :
    Split members' before f behind ⟨.root, none, members', first ++ [] ++ last⟩ first [] last where
  built_first := by rw [← Node.buildChildren_congr hbefore, h.built_first]
  built_middle := by
    have hchild : Node.buildChild .standard [] members' f = .ok none := by
      rw [Node.buildChild_eq_childOf, hnone, Node.childOf_none]
    rw [Node.buildChildren, Node.buildChildren, hchild]
    rfl
  built_last := by rw [← Node.buildChildren_congr hbehind, h.built_last]
  tree := rfl

theorem Split.sameOutside (h : Split members before f behind root first middle last)
    (h' : Split members' before f behind root' first middle' last)
    (hf : f ∈ Schema.root.fields) (hnested : f.kind.isNested = true)
    (hmembers : ∀ other, other ≠ f.name →
      Json.supplied? members other = Json.supplied? members' other) :
    Node.SameOutside f.name root root' := by
  have hmiddle := h.name_of_middle
  have hmiddle' := h'.name_of_middle
  have htree := h.tree
  have htree' := h'.tree
  subst htree htree'
  exact Node.sameOutside_of_middle rfl rfl hf hnested hmembers rfl rfl hmiddle hmiddle'

def opening : List Encoding.Step :=
  (Schema.root.fields.filter (·.emission ≠ .skip)).map (.field [] .root)

theorem Split.steps_eq (h : Split members before f behind root first middle last) :
    Encoding.steps [] root = opening ++ (Encoding.stepsBelow [] first ++
      Encoding.stepsBelow [] middle ++ Encoding.stepsBelow [] last) := by
  rw [h.tree, Encoding.steps, Encoding.stepsBelow_append, Encoding.stepsBelow_append]
  rfl

end

end Layout
end CrowdScenario

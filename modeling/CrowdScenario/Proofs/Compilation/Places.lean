import CrowdScenario.Proofs.Compilation.Origin
import CrowdScenario.Proofs.Resolution.Outside

/-!
# Places of sections

In a description of a crowd simulation every section has one of a few places. The built-in references
are known by their places, so that all references that lead into a section from outside are either
those of an author or the one that arrivals fall back to (`freeOf_of_refers`).
-/

namespace CrowdScenario

theorem Section.name_injective {s s' : Section} (h : s.name = s'.name) : s = s' := by
  have hfound : ∀ t : Section, all.find? (fun u => u.name = t.name) = some t := by
    intro t
    cases t <;> decide
  have hsame := hfound s
  rw [h, hfound s'] at hsame
  exact (Option.some.inj hsame).symm

namespace Layout

/-- Where the sections of a description may stand, with their schemas and the slots they fill. -/
def places : List (Address × String × Option Slot) :=
  [([], Schema.rootName, none), (["scene"], "scene", none), (["time"], "time", none),
    (["spawn"], "spawn", none), (["spawn", "time"], Schema.distributionName, some Schema.arrivals),
    (["forces"], "forces", none), (["forces", "target"], "force.target", none),
    (["forces", "target", "speed"], Schema.distributionName, some ⟨.targetSpeed, []⟩),
    (["forces", "repulsion"], "force.repulsion", none),
    (["forces", "repulsion", "coeff"], Schema.distributionName, some ⟨.repulsionCoefficient, []⟩),
    (["fov"], "fov", none), (["fov", "forward"], Schema.distributionName, some ⟨.fovForward, []⟩),
    (["fov", "backward"], Schema.distributionName, some ⟨.fovBackward, []⟩),
    (["density_map"], "density_map", none)]

def placed (here : Address) (f : Field) : Bool :=
  match f.kind with
  | .nested title => (here ++ [f.name], title, none) ∈ places
  | .distribution slot => (here ++ [f.name], Schema.distributionName, some slot) ∈ places
  | _ => true

theorem placed_of_mem_places : ∀ p ∈ places, ∀ s ∈ Registry.standard.schemas, s.name = p.2.1 →
    ∀ f ∈ s.fields, placed p.1 f = true := by
  decide

section
variable {members : Json.Members} {root n : Node} {here : Address}

theorem mem_places_of_at? (hroot : Node.ofDescription .standard members = .ok root)
    (hn : root.at? here = some n) : (here, n.schema.name, n.slot?) ∈ places := by
  induction here using List.reverseRecOn generalizing n with
  | nil =>
    cases hn
    obtain ⟨schema, hschema, hbuild⟩ := Node.ofDescription_eq_ok hroot
    cases hschema
    obtain ⟨children, -, rfl⟩ := Node.build_eq_ok hbuild
    exact List.mem_cons_self
  | append_singleton above name ih =>
    obtain ⟨p, hp, -, f, hf, rfl, hbuild⟩ := Node.field_of_at? hroot hn
    have hknown := ((Node.built_ofDescription hroot).of_at? hp).mem_schemas
    have hplaced := placed_of_mem_places _ (ih hp) p.schema hknown rfl f hf
    obtain ⟨j, schema, -, hcase⟩ := Node.buildChild_eq_some hbuild
    rcases hcase with ⟨title, block, hkind, hschema, -, hbuild'⟩ | ⟨slot, hkind, -⟩
    · obtain ⟨children, -, rfl⟩ := Node.build_eq_ok hbuild'
      have hname := (Registry.mem_of_schema? hschema).2
      simpa [placed, hkind, hname] using hplaced
    · obtain ⟨block, children, rfl⟩ := of_distribution hkind hbuild
      have hin : (above ++ [f.name], Schema.distributionName, some slot) ∈ places := by
        simpa [placed, hkind] using hplaced
      exact hin

theorem eq_reference_of_default {d : Default} {expression : String} {required : Bool}
    (h : Source.ofDefault d = .reference expression required) : d = .reference expression := by
  cases d <;> cases h
  rfl

theorem reference?_of_author {strict : Bool} {j : Json} {expression : String} {required : Bool}
    (h : Source.ofAuthor strict j = .reference expression required) :
    (Input.json j).reference? = some expression := by
  unfold Source.ofAuthor at h
  split at h
  · next expression' href =>
    cases h
    exact href
  · cases h

theorem eq_time_of_endTime {s : Section} {rest : Reference}
    (h : Reference.parse? "ref:time.end_time" = some (.field s.name :: rest)) : s = .time := by
  have hparse : Reference.parse? "ref:time.end_time" =
      some [.field "time", .field "end_time"] := by
    decide
  rw [hparse] at h
  have hname : "time" = s.name ∧ [.field "end_time"] = rest := by simpa using h
  have htime : Section.time.name = s.name := hname.1
  exact (Section.name_injective htime).symm

theorem arrivals_of_fallback : ∀ p ∈ places, ∀ slot ∈ p.2.2, ∀ q ∈ slot.fallbacks,
    q.2.literal? = none → p.1 = ["spawn", "time"] ∧ q.2 = .reference "ref:time.end_time" := by
  decide

theorem literal_of_default : ∀ s ∈ Registry.standard.schemas, ∀ f ∈ s.fields, ∀ d ∈ f.default?,
    d.literal? ≠ none := by
  decide

/-- Where an author does not refer into a section from outside, nothing does, unless the arrivals
fall back to the end time. -/
theorem freeOf_of_refers {s : Section} (hroot : Node.ofDescription .standard members = .ok root)
    (hrefers : ∀ id expression, root.Refers members id expression →
      id.owner.head? ≠ some s.name →
        ∀ rest, Reference.parse? expression ≠ some (.field s.name :: rest))
    (harrivals : s = .time → Json.suppliedAt? members ["spawn", "time"] = none) (strict : Bool) :
    root.FreeOf strict s.name := by
  intro id n f hfield hout expression required hmem rest hparse
  obtain ⟨hn, hf⟩ := Node.field?_eq_some.mp hfield
  simp only [Node.sources, List.mem_append, Option.mem_toList, List.mem_map,
    Option.map_eq_some_iff] at hmem
  rcases hmem with (⟨j, hj, hauthor⟩ | ⟨d, hd, hdefault⟩) | ⟨d, hd, hdefault⟩
  · have href := reference?_of_author hauthor
    obtain ⟨id', hrefer, hid⟩ := Node.refers_of_supplied hroot hfield hj href
    refine hrefers id' expression hrefer ?_ rest hparse
    rcases hid with rfl | howner
    · exact hout
    · intro hhead
      rw [howner, List.head?_append, hhead] at hout
      exact hout rfl
  · cases eq_reference_of_default hdefault
    obtain ⟨slot, hslot, hlookup⟩ := Option.bind_eq_some_iff.mp hd
    obtain ⟨howner, hexpression⟩ := arrivals_of_fallback _ (mem_places_of_at? hroot hn) slot hslot
      _ (mem_of_lookup hlookup) rfl
    cases hexpression
    have hnone := harrivals (eq_time_of_endTime hparse)
    have hat : root.at? (["spawn"] ++ ["time"]) = some n := by
      rw [← hn]
      exact congrArg root.at? howner.symm
    obtain ⟨j, hj⟩ := Node.suppliedAt?_of_at? hroot hat
    rw [List.singleton_append, hnone] at hj
    cases hj
  · cases eq_reference_of_default hdefault
    have hknown := ((Node.built_ofDescription hroot).of_at? hn).mem_schemas
    exact literal_of_default n.schema hknown f (Schema.mem_of_field? hf).1 _ hd rfl

end

end Layout
end CrowdScenario

import CrowdScenario.Proofs.Encoding.Order

/-!
# Outlines of trees

The outline of a tree keeps its sections and forgets what was written in them. Which fields there are,
where references lead and in which steps the tree is encoded can all be read off the outline.
-/

namespace CrowdScenario
namespace Node

mutual

/-- The sections of a tree, without their members. -/
def outline : Node → Node
  | ⟨schema, slot?, _, children⟩ => ⟨schema, slot?, [], outlines children⟩

def outlines : List (String × Node) → List (String × Node)
  | [] => []
  | (name, n) :: rest => (name, outline n) :: outlines rest

end

@[simp] theorem schema_outline (n : Node) : n.outline.schema = n.schema := by
  cases n
  simp only [outline]

@[simp] theorem slot?_outline (n : Node) : n.outline.slot? = n.slot? := by
  cases n
  simp only [outline]

theorem lookup_outlines (children : List (String × Node)) (name : String) :
    (outlines children).lookup name = (children.lookup name).map outline := by
  induction children with
  | nil => simp only [outlines, List.lookup_nil, Option.map_none]
  | cons p rest ih =>
    rcases p with ⟨name', n⟩
    simp only [outlines, List.lookup_cons]
    cases name == name' with
    | true => rfl
    | false => exact ih

theorem child?_outline (n : Node) (name : String) :
    n.outline.child? name = (n.child? name).map outline := by
  rcases n with ⟨schema, slot?, members, children⟩
  simp only [outline, child?]
  exact lookup_outlines children name

theorem at?_outline (n : Node) (here : Address) :
    n.outline.at? here = (n.at? here).map outline := by
  induction here generalizing n with
  | nil => rfl
  | cons name rest ih =>
    simp only [at?, child?_outline]
    cases n.child? name with
    | none => rfl
    | some c => exact ih c

mutual

theorem scalars_outline (here : Address) : ∀ n : Node, scalars here n.outline = scalars here n
  | ⟨schema, slot?, members, children⟩ => by
    simp only [outline, scalars, scalarsBelow_outlines here children]

theorem scalarsBelow_outlines (here : Address) : ∀ children : List (String × Node),
    scalarsBelow here (outlines children) = scalarsBelow here children
  | [] => by simp only [outlines, scalarsBelow]
  | (name, n) :: rest => by
    simp only [outlines, scalarsBelow, scalars_outline (here ++ [name]) n,
      scalarsBelow_outlines here rest]

end

theorem locate?_outline (n : Node) (here : Address) (reference : Reference) :
    n.outline.locate? here reference = n.locate? here reference := by
  induction reference generalizing n here with
  | nil => rfl
  | cons segment rest ih =>
    cases segment with
    | tag name => rfl
    | field name =>
      simp only [locate?, child?_outline, schema_outline]
      cases n.child? name with
      | none => rfl
      | some c => exact ih c (here ++ [name])

section
variable {root root' : Node}

theorem schema_eq_of_outline (h : root.outline = root'.outline) : root.schema = root'.schema := by
  have hschema := congrArg schema h
  simpa only [schema_outline] using hschema

theorem slot?_eq_of_outline (h : root.outline = root'.outline) : root.slot? = root'.slot? := by
  have hslot := congrArg slot? h
  simpa only [slot?_outline] using hslot

theorem scalars_eq_of_outline (h : root.outline = root'.outline) (here : Address) :
    scalars here root = scalars here root' := by
  rw [← scalars_outline here root, h, scalars_outline]

theorem locate?_eq_of_outline (h : root.outline = root'.outline) (here : Address)
    (reference : Reference) : root.locate? here reference = root'.locate? here reference := by
  rw [← locate?_outline root, h, locate?_outline]

theorem map_outline_at? (h : root.outline = root'.outline) (here : Address) :
    (root.at? here).map outline = (root'.at? here).map outline := by
  rw [← at?_outline root, h, at?_outline]

theorem at?_of_outline (h : root.outline = root'.outline) {here : Address} {n : Node}
    (hn : root.at? here = some n) : ∃ n', root'.at? here = some n' ∧ n.outline = n'.outline := by
  have hmap := map_outline_at? h here
  rw [hn, Option.map_some] at hmap
  obtain ⟨n', hn', houtline⟩ := Option.map_eq_some_iff.mp hmap.symm
  exact ⟨n', hn', houtline.symm⟩

theorem at?_eq_none_of_outline (h : root.outline = root'.outline) {here : Address}
    (hn : root.at? here = none) : root'.at? here = none := by
  have hmap := map_outline_at? h here
  rw [hn, Option.map_none] at hmap
  exact Option.map_eq_none_iff.mp hmap.symm

theorem field?_of_outline (h : root.outline = root'.outline) {id : FieldId} {n : Node} {f : Field}
    (hfield : root.field? id = some (n, f)) :
    ∃ n', root'.field? id = some (n', f) ∧ n.outline = n'.outline := by
  obtain ⟨hn, hf⟩ := field?_eq_some.mp hfield
  obtain ⟨n', hn', houtline⟩ := at?_of_outline h hn
  rw [schema_eq_of_outline houtline] at hf
  exact ⟨n', field?_eq_some.mpr ⟨hn', hf⟩, houtline⟩

theorem field?_eq_none_of_outline (h : root.outline = root'.outline) {id : FieldId}
    (hfield : root.field? id = none) : root'.field? id = none := by
  cases hfield' : root'.field? id with
  | none => rfl
  | some p =>
    obtain ⟨n, hn, -⟩ := field?_of_outline h.symm hfield'
    rw [hfield] at hn
    cases hn

end

end Node

namespace Encoding

open Node

mutual

theorem steps_outline (here : Address) : ∀ n : Node, steps here n.outline = steps here n
  | ⟨schema, some slot, members, children⟩ => by simp only [outline, steps]
  | ⟨schema, none, members, children⟩ => by
    simp only [outline, steps, stepsBelow_outlines here children]

theorem stepsBelow_outlines (here : Address) : ∀ children : List (String × Node),
    stepsBelow here (outlines children) = stepsBelow here children
  | [] => by simp only [outlines, stepsBelow]
  | (name, n) :: rest => by
    simp only [outlines, stepsBelow, steps_outline (here ++ [name]) n,
      stepsBelow_outlines here rest]

end

theorem steps_eq_of_outline {n n' : Node} (h : n.outline = n'.outline) (here : Address) :
    steps here n = steps here n' := by
  rw [← steps_outline here n, h, steps_outline]

end Encoding
end CrowdScenario

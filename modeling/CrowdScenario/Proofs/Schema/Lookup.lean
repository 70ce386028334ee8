import CrowdScenario.Schema.Builder

/-!
# Looking up declarations

Names are declared once, so that what is declared is found by its name and nothing else is.
-/

namespace CrowdScenario

theorem find?_of_nodup {α β : Type} [DecidableEq β] {key : α → β} {xs : List α}
    (hnodup : (xs.map key).Nodup) {x : α} (hx : x ∈ xs) :
    xs.find? (fun y => key y = key x) = some x := by
  induction xs with
  | nil => cases hx
  | cons y ys ih =>
    rw [List.map_cons, List.nodup_cons] at hnodup
    cases hx with
    | head => simp
    | tail _ hx =>
      have hne : key y ≠ key x := by
        intro heq
        exact hnodup.1 (heq ▸ List.mem_map_of_mem hx)
      rw [List.find?_cons_of_neg (by simpa using hne)]
      exact ih hnodup.2 hx

theorem mem_of_lookup {α β : Type} [DecidableEq α] {xs : List (α × β)} {a : α} {b : β}
    (h : xs.lookup a = some b) : (a, b) ∈ xs := by
  obtain ⟨before, behind, heq, -⟩ := List.lookup_eq_some_iff.mp h
  rw [heq]
  exact List.mem_append_right _ List.mem_cons_self

theorem lookup_of_nodup {α β : Type} [DecidableEq α] {xs : List (α × β)}
    (hnodup : (xs.map Prod.fst).Nodup) {a : α} {b : β} (hmem : (a, b) ∈ xs) :
    xs.lookup a = some b := by
  induction xs with
  | nil => cases hmem
  | cons p rest ih =>
    rw [List.map_cons, List.nodup_cons] at hnodup
    cases hmem with
    | head => simp
    | tail _ hmem =>
      have hne : a ≠ p.1 := by
        intro heq
        exact hnodup.1 (heq ▸ List.mem_map_of_mem (f := Prod.fst) hmem)
      have hbeq : (a == p.1) = false := beq_eq_false_iff_ne.mpr hne
      rcases p with ⟨a', b'⟩
      rw [List.lookup_cons, hbeq]
      exact ih hnodup.2 hmem

namespace Schema

theorem mem_of_field? {s : Schema} {name : String} {f : Field} (h : s.field? name = some f) :
    f ∈ s.fields ∧ f.name = name := by
  have hname := List.find?_some h
  exact ⟨List.mem_of_find?_eq_some h, by simpa using hname⟩

theorem field?_of_mem (s : Schema) {f : Field} (h : f ∈ s.fields) : s.field? f.name = some f :=
  find?_of_nodup s.names_nodup h

end Schema

namespace Registry

theorem mem_of_schema? {r : Registry} {name : String} {s : Schema} (h : r.schema? name = some s) :
    s ∈ r.schemas ∧ s.name = name := by
  have hname := List.find?_some h
  exact ⟨List.mem_of_find?_eq_some h, by simpa using hname⟩

end Registry
end CrowdScenario

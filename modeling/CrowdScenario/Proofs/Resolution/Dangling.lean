import CrowdScenario.Proofs.Resolution.Outside
import CrowdScenario.Proofs.Resolution.Questions
import CrowdScenario.Proofs.Tree.Outline

/-!
# References that lead nowhere

If a reference leads nowhere on a fresh tree, the fields that start with it have the values they would
have without it, and so has every other field (`Plain.field_eq_of_drops`). What was found on the way
to nothing can be found without the reference, since no field that starts with it is needed there.
-/

namespace CrowdScenario

/-- In the second of two trees with one outline, some fields lack the reference that is their first
source in the first tree and need not lead anywhere. -/
structure Node.Drops (strict : Bool) (expression : String) (root root' : Node) : Prop where
  outline : root.outline = root'.outline
  sources : ∀ id n n' f, root.field? id = some (n, f) → root'.field? id = some (n', f) →
    f.kind.isNested = false → n.sources strict f = n'.sources strict f ∨
      n.sources strict f = .reference expression false :: n'.sources strict f

namespace Plain

section
variable {root root' : Node}

theorem follow_eq_of_outline (h : root.outline = root'.outline) (expression path : String) :
    follow root expression path = follow root' expression path := by
  unfold follow
  cases Reference.parse? expression with
  | none => rfl
  | some reference => simp only [Node.locate?_eq_of_outline h]

theorem firstInput_eq_of_outline (h : root.outline = root'.outline) (path : String)
    (sources : List Source) : firstInput root path sources = firstInput root' path sources := by
  induction sources with
  | nil => rfl
  | cons source rest ih =>
    cases source with
    | given i => rfl
    | reference expression required => simp only [firstInput, follow_eq_of_outline h, ih]

end

section
variable {ctx : Context} {root root' n n' : Node} {id : FieldId} {f : Field} {read : Reader}
  {expression path path' : String}

theorem follow_eq_ok {v? : Option Value} (h : follow root expression path read = .ok v?) :
    follow root expression path' read = .ok v? := by
  unfold follow at h ⊢
  cases hparse : Reference.parse? expression with
  | none =>
    rw [hparse] at h
    cases h
  | some reference =>
    rw [hparse] at h
    exact h

theorem firstInput_of_nowhere (hnowhere : follow root expression path read = .ok none)
    (sources : List Source) :
    firstInput root path (.reference expression false :: sources) read =
      firstInput root path sources read := by
  rw [firstInput, Inquiry.bind_apply, hnowhere]
  rfl

theorem evaluate_eq_of_sources (houtline : root.outline = root'.outline)
    (hsources : n.sources ctx.settings.strictReferences f =
      n'.sources ctx.settings.strictReferences f) :
    evaluate ctx root n id f = evaluate ctx root' n' id f := by
  rw [evaluate, hsources, firstInput_eq_of_outline houtline, evaluate]

variable (hdrops : Node.Drops ctx.settings.strictReferences expression root root')
  (hfield : root.field? id = some (n, f)) (hfield' : root'.field? id = some (n', f))
  (hplain : f.kind.isNested = false)

include hdrops hfield hfield' hplain

theorem evaluate_of_nowhere (hnowhere : follow root expression path read = .ok none) :
    evaluate ctx root n id f read = evaluate ctx root' n' id f read := by
  cases hdrops.sources id n n' f hfield hfield' hplain with
  | inl hsame => rw [evaluate_eq_of_sources hdrops.outline hsame]
  | inr hdropped =>
    rw [evaluate, evaluate, Inquiry.bind_apply, Inquiry.bind_apply, hdropped,
      firstInput_of_nowhere (follow_eq_ok hnowhere), firstInput_eq_of_outline hdrops.outline]

theorem evaluate_of_unled (hunled : ∀ v?, follow root expression path read ≠ .ok v?) {e : Evaluated}
    (h : evaluate ctx root n id f read = .ok e) : evaluate ctx root' n' id f read = .ok e := by
  cases hdrops.sources id n n' f hfield hfield' hplain with
  | inl hsame => rwa [← evaluate_eq_of_sources hdrops.outline hsame]
  | inr hdropped =>
    obtain ⟨input?, hinput, -⟩ := Inquiry.bind_eq_ok.mp h
    rw [hdropped] at hinput
    obtain ⟨v?, hfollow, -⟩ := Inquiry.bind_eq_ok.mp hinput
    exact absurd (follow_eq_ok hfollow) (hunled v?)

end

end Plain

namespace Findings

variable {ctx : Context} {registry : Registry} {root root' : Node} {found : Findings}
  {expression path : String}

/-- What is found while the reference cannot be followed is found without it as well. -/
theorem Sound.cons_of_unled {id : FieldId} {e : Evaluated} {n : Node} {f : Field}
    (hbuilt : root.Built registry)
    (hdrops : Node.Drops ctx.settings.strictReferences expression root root')
    (hunled : ∀ v?, Plain.follow root expression path found.read ≠ .ok v?)
    (older : found.Sound ctx root') (new : found.lookup id = none) (scalar : id ∈ root.scalars [])
    (declared : root.field? id = some (n, f))
    (evaluated : Plain.evaluate ctx root n id f found.read = .ok e) :
    Sound ctx root' ((id, e) :: found) := by
  obtain ⟨n', declared', -⟩ := Node.field?_of_outline hdrops.outline declared
  have hplain := hbuilt.plain_of_mem_scalars scalar declared
  rw [Node.scalars_eq_of_outline hdrops.outline] at scalar
  exact .cons older new scalar declared'
    (Plain.evaluate_of_unled hdrops declared declared' hplain hunled evaluated)

theorem Sound.of_unled (h : found.Sound ctx root) (hbuilt : root.Built registry)
    (hdrops : Node.Drops ctx.settings.strictReferences expression root root')
    (hunled : ∀ v?, Plain.follow root expression path found.read ≠ .ok v?) :
    found.Sound ctx root' := by
  induction h with
  | nil => exact .nil
  | @cons older id e n f _ new scalar declared evaluated ih =>
    have hunled' : ∀ v?, Plain.follow root expression path older.read ≠ .ok v? := fun v? hv? =>
      hunled v? (Plain.monotone_follow root expression path _ _ (below_cons e new) v? hv?)
    exact (ih hunled').cons_of_unled hbuilt hdrops hunled' new scalar declared evaluated

theorem Sound.exists_common (h : found.Sound ctx root) (hbuilt : root.Built registry)
    (hdrops : Node.Drops ctx.settings.strictReferences expression root root')
    (hnowhere : Plain.follow root expression path found.read = .ok none) :
    ∃ common : Findings, common.Sound ctx root ∧ common.Sound ctx root' ∧
      Plain.follow root expression path common.read = .ok none := by
  induction h with
  | nil => exact ⟨[], .nil, .nil, hnowhere⟩
  | @cons older id e n f hsound new scalar declared evaluated ih =>
    by_cases hled : ∃ v?, Plain.follow root expression path older.read = .ok v?
    · obtain ⟨v?, hv?⟩ := hled
      have hlater := Plain.monotone_follow root expression path _ _ (below_cons e new) v? hv?
      rw [hnowhere] at hlater
      cases hlater
      exact ih hv?
    · have hunled := not_exists.mp hled
      -- This finding is the first from which the reference leads anywhere, which is nowhere.
      have hsound' := (hsound.of_unled hbuilt hdrops hunled).cons_of_unled hbuilt hdrops hunled new
        scalar declared evaluated
      exact ⟨(id, e) :: older, hsound.cons new scalar declared evaluated, hsound', hnowhere⟩

end Findings

namespace Plain

section
variable {ctx : Context} {registry : Registry} {root root' : Node} {expression path : String}

/-- From common findings that lead to nothing all fields are evaluated alike, while nothing that was
found is under way. -/
theorem field_eq_of_common {common : Findings} (hbuilt : root.Built registry)
    (hdrops : Node.Drops ctx.settings.strictReferences expression root root')
    (hsound : common.Sound ctx root) (hsound' : common.Sound ctx root')
    (hnowhere : follow root expression path common.read = .ok none) (busy : List FieldId)
    (hidle : ∀ id ∈ busy, common.lookup id = none) :
    field ctx root busy = field ctx root' busy := by
  -- The induction is on the number of fields that are left.
  induction hn : (left root busy).length using Nat.strongRecOn generalizing busy with
  | _ size ih =>
    funext id
    cases hfound : common.lookup id with
    | some e => rw [hsound.field_eq hidle hfound, hsound'.field_eq hidle hfound]
    | none =>
      rw [field, field, ← Node.scalars_eq_of_outline hdrops.outline]
      by_cases hbusy : id ∈ busy
      · rw [dif_pos hbusy, dif_pos hbusy]
      rw [dif_neg hbusy, dif_neg hbusy]
      by_cases hscalar : id ∈ root.scalars []
      · rw [dif_pos hscalar, dif_pos hscalar]
        cases hfield : root.field? id with
        | none => rw [Node.field?_eq_none_of_outline hdrops.outline hfield]
        | some p =>
          rcases p with ⟨n, f⟩
          obtain ⟨n', hfield', -⟩ := Node.field?_of_outline hdrops.outline hfield
          have hplain := hbuilt.plain_of_mem_scalars hscalar hfield
          have hlt := length_left_lt hscalar hbusy
          rw [hn] at hlt
          have hidle' : ∀ x ∈ id :: busy, common.lookup x = none := by
            intro x hx
            cases hx with
            | head => exact hfound
            | tail _ hx => exact hidle x hx
          have hread := ih _ hlt (id :: busy) hidle' rfl
          have hbelow : Reader.Below common.read (field ctx root (id :: busy)) := fun x e hx =>
            hsound.field_eq hidle' (Findings.read_eq_ok.mp hx)
          have hfollow := monotone_follow root expression path _ _ hbelow none hnowhere
          simp only [hfield', ← hread]
          exact evaluate_of_nowhere hdrops hfield hfield' hplain hfollow
      · rw [dif_neg hscalar, dif_neg hscalar]

/-- A reference that leads nowhere on a fresh tree could as well be missing. -/
theorem field_eq_of_drops (hbuilt : root.Built registry) (hscene : root.SingleScene)
    (hdrops : Node.Drops ctx.settings.strictReferences expression root root')
    (hdangles : (Resolution.perform (Resolution.resolveReference ctx root expression) .empty).1 =
      .ok none) : field ctx root [] = field ctx root' [] := by
  have hagrees : Agrees ctx root [] (Resolution.resolveReference ctx root expression)
      (follow root expression Resolution.documentPath) :=
    Agrees.resolveReference hscene expression
  have hfresh := hagrees.fresh
  rw [hdangles] at hfresh
  obtain ⟨m, found, -, hm, -, hagain⟩ := hagrees.agreesAt [] .empty Memo.Keeps.empty
  obtain ⟨common, hsound, hsound', hnowhere⟩ :=
    hm.sound.exists_common hbuilt hdrops (hagain none hfresh.symm)
  exact field_eq_of_common hbuilt hdrops hsound hsound' hnowhere [] nofun

end

end Plain
end CrowdScenario

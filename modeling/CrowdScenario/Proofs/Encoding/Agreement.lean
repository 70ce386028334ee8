import CrowdScenario.Proofs.Resolution.Questions
import CrowdScenario.Proofs.Tree.Building

/-!
# Encoding agrees with plain evaluation

The encoder resolves fields between writing records, and takes the geometry of a scene from memory.
It writes what the plain encoder writes, which knows no geometry but that of the field it is at,
provided that a location is written as a scene only where it is one (`Schema.ScenesApart`).
-/

namespace CrowdScenario

def Emission.isScene : Emission → Bool
  | sceneFile _ => true
  | _ => false

/-- No field is written as a scene without being one, if its section has one. -/
def Schema.ScenesApart (s : Schema) : Prop :=
  ∀ f ∈ s.fields, f.emission.isScene = true → f.kind ≠ .sceneFile →
    ∀ f' ∈ s.fields, f'.kind ≠ .sceneFile

instance (s : Schema) : Decidable s.ScenesApart :=
  inferInstanceAs (Decidable (∀ f ∈ s.fields, f.emission.isScene = true → f.kind ≠ .sceneFile →
    ∀ f' ∈ s.fields, f'.kind ≠ .sceneFile))

def Node.ScenesApart (root : Node) : Prop :=
  ∀ here n, root.at? here = some n → n.schema.ScenesApart

namespace Node

theorem Built.at?_child {registry : Registry} {root n c : Node} (h : Built registry root)
    {here : Address} {name : String} (hn : root.at? here = some n)
    (hmem : (name, c) ∈ n.children) : root.at? (here ++ [name]) = some c := by
  rw [at?_append, hn, Option.bind_some, at?, (h.of_at? hn).child?_of_mem hmem]
  rfl

theorem Built.singleScene {registry : Registry} {root : Node} (h : Built registry root)
    (hsingle : ∀ s ∈ registry.schemas, (s.fields.filter (·.kind = .sceneFile)).length ≤ 1) :
    root.SingleScene := by
  intro here n hn f hf f' hf' hkind hkind'
  have hle := hsingle n.schema (h.of_at? hn).mem_schemas
  have hmem : f ∈ n.schema.fields.filter (·.kind = .sceneFile) :=
    List.mem_filter.mpr ⟨hf, by simpa using hkind⟩
  have hmem' : f' ∈ n.schema.fields.filter (·.kind = .sceneFile) :=
    List.mem_filter.mpr ⟨hf', by simpa using hkind'⟩
  match hscenes : n.schema.fields.filter (·.kind = .sceneFile) with
  | [] =>
    rw [hscenes] at hmem
    cases hmem
  | [g] =>
    rw [hscenes, List.mem_singleton] at hmem hmem'
    rw [hmem, hmem']
  | _ :: _ :: _ =>
    rw [hscenes] at hle
    simp at hle

theorem Built.scenesApart {registry : Registry} {root : Node} (h : Built registry root)
    (hapart : ∀ s ∈ registry.schemas, s.ScenesApart) : root.ScenesApart := by
  intro here n hn
  exact hapart n.schema (h.of_at? hn).mem_schemas

end Node

namespace Encoding

variable {ctx : Context} {root : Node}

/-- Whatever has been written, an encoder goes on as a plain one. -/
def Follows (ctx : Context) (root : Node) (step : Encoder Unit) (p : Writer → Inquiry Writer) :
    Prop :=
  ∀ w, Agrees ctx root [] (step.run w) (p w >>= fun w' => pure ((), w'))

theorem ofExcept_map {α β : Type} (result : Except CompileError α) (f : α → β) :
    (Plain.ofExcept result >>= fun a => pure (f a)) = Plain.ofExcept (result.map f) := by
  cases result <;> rfl

theorem Follows.andThen {step next : Encoder Unit} {p q : Writer → Inquiry Writer}
    (hp : Follows ctx root step p) (hq : Follows ctx root next q) :
    Follows ctx root (step >>= fun _ => next) (fun w => p w >>= q) := by
  intro w
  have hbind := (hp w).bind fun r => hq r.2
  simpa using hbind

theorem require_eq {α : Type} (path expected : String) (part : Value → Option α) (v : Value) :
    require path expected part v = Resolution.ofExcept (Plain.require path expected part v) := by
  rw [require, Plain.require]
  cases part v <;> rfl

theorem side?_eq {m : Memo} {found : Findings} {id : FieldId} {n : Node} {f : Field}
    {e : Evaluated} (hscene : root.SingleScene) (hapart : root.ScenesApart)
    (hfield : root.field? id = some (n, f)) (hemission : f.emission.isScene = true)
    (hm : m.Keeps ctx root found []) (hfound : found.lookup id = some e) (name : String) :
    m.side? id.owner name = e.sides.lookup name := by
  rw [hm.sides]
  by_cases hkind : f.kind = .sceneFile
  · exact hm.sound.side?_eq hscene hfield hkind hfound name
  · obtain ⟨hn, hf⟩ := Node.field?_eq_some.mp hfield
    -- A finding with side values in the section would be a scene beside the field.
    have hnone : ∀ p ∈ found, p.1.owner = id.owner → p.2.sides = [] := by
      intro p hp howner
      by_contra hsides
      obtain ⟨n', f', hfield', hkind'⟩ := hm.sound.kind_of_sides hp hsides
      obtain ⟨hn', hf'⟩ := Node.field?_eq_some.mp hfield'
      rw [howner, hn] at hn'
      cases hn'
      have hmem := (Schema.mem_of_field? hf).1
      have hmem' := (Schema.mem_of_field? hf').1
      exact hapart id.owner n hn f hmem hemission hkind f' hmem' hkind'
    have hsides : e.sides = [] := hnone (id, e) (mem_of_lookup hfound) rfl
    rw [Findings.side?_eq_none hnone, hsides]
    rfl

theorem perform_entries {m : Memo} {found : Findings} {id : FieldId} {n : Node} {f : Field}
    {e : Evaluated} (hscene : root.SingleScene) (hapart : root.ScenesApart)
    (hfield : root.field? id = some (n, f)) (hm : m.Keeps ctx root found [])
    (hfound : found.lookup id = some e) (owner : Section) :
    Resolution.perform (entries ctx owner id e.value f.emission) m =
      (Plain.entries ctx owner id e f.emission, m) := by
  cases hemission : f.emission with
  | skip => rfl
  | leadingByte => rfl
  | flag element =>
    simp only [entries, Plain.entries, require, Plain.require]
    cases e.value.bool? <;> rfl
  | float element =>
    simp only [entries, Plain.entries, require, Plain.require]
    cases e.value.float? <;> rfl
  | seconds element =>
    simp only [entries, Plain.entries, require, Plain.require]
    cases e.value.float? with
    | none => rfl
    | some x =>
      rw [Resolution.perform_bind_ok (Resolution.perform_pure x m), Inquiry.ok_bind]
      cases endTime? x <;> rfl
  | sceneFile element =>
    have hisScene : f.emission.isScene = true := by
      rw [hemission]
      rfl
    have hside := side?_eq hscene hapart hfield hisScene hm hfound geometrySide
    simp only [entries, Plain.entries, require, Plain.require]
    cases e.value.text? with
    | none => rfl
    | some file =>
      rw [Resolution.perform_bind_ok (Resolution.perform_pure file m),
        Resolution.perform_bind_ok (Resolution.perform_get m), hside]
      rfl

/-! ### Fields -/

theorem perform_put (path : String) (e : Entry) (w : Writer) (m : Memo) :
    Resolution.perform ((put path e).run w) m = ((Plain.put path e w).map (((), ·)), m) := by
  show Resolution.perform (put path e w) m = _
  unfold put Plain.put
  cases w.put e <;> rfl

theorem perform_putAll (list : List (String × Entry)) (w : Writer) (m : Memo) :
    Resolution.perform ((putAll list).run w) m = ((Plain.putAll list w).map (((), ·)), m) := by
  induction list generalizing w with
  | nil => rfl
  | cons p rest ih =>
    have hput := perform_put p.1 p.2 w m
    rw [putAll, StateT.run_bind, Plain.putAll]
    cases hresult : Plain.put p.1 p.2 w with
    | error e =>
      rw [hresult] at hput
      exact Resolution.perform_bind_error hput
    | ok w' =>
      rw [hresult] at hput
      rw [Resolution.perform_bind_ok hput]
      exact ih w'

theorem perform_writeValue {m : Memo} {found : Findings} {id : FieldId} {n : Node} {f : Field}
    {e : Evaluated} (hscene : root.SingleScene) (hapart : root.ScenesApart)
    (hfield : root.field? id = some (n, f)) (hm : m.Keeps ctx root found [])
    (hfound : found.lookup id = some e) (schema : Schema) (w : Writer) :
    Resolution.perform ((writeValue ctx schema f id e.value).run w) m =
      ((Plain.writeValue ctx schema f id e w).map (((), ·)), m) := by
  unfold writeValue Plain.writeValue
  split
  · rw [StateT.run_bind, StateT.run_monadLift, require_eq]
    cases Plain.require id.path "enum" Value.code? e.value <;> rfl
  · cases schema.owner with
    | none => rfl
    | some owner =>
      have hentries := perform_entries hscene hapart hfield hm hfound owner
      simp only [StateT.run_bind, StateT.run_monadLift, monadLift_self, bind_assoc, pure_bind]
      cases hresult : Plain.entries ctx owner id e f.emission with
      | error c =>
        rw [hresult] at hentries
        exact Resolution.perform_bind_error hentries
      | ok list =>
        rw [hresult] at hentries
        rw [Resolution.perform_bind_ok hentries, perform_putAll]
        rfl

theorem follows_encodeField (hscene : root.SingleScene) (hapart : root.ScenesApart)
    {here : Address} {n : Node} {f : Field} (hn : root.at? here = some n)
    (hf : f ∈ n.schema.fields) :
    Follows ctx root (encodeField ctx root here n.schema f)
      (Plain.encodeField ctx here n.schema f) := by
  have hfield : root.field? ⟨here, f.name⟩ = some (n, f) :=
    Node.field?_eq_some.mpr ⟨hn, n.schema.field?_of_mem hf⟩
  intro w
  simp only [encodeField, Plain.encodeField, StateT.run_bind, StateT.run_monadLift, monadLift_self,
    bind_assoc, pure_bind]
  refine ⟨?_, fun found => ?_⟩
  · refine Inquiry.monotone_bind (Plain.monotone_resolve here n.schema f.name) fun e => ?_
    exact Inquiry.monotone_bind (Inquiry.monotone_ofExcept _) fun _ => Inquiry.monotone_pure _
  · refine AgreesAt.resolve_bind hscene fun e found' hfound => ?_
    rw [ofExcept_map]
    exact AgreesAt.still fun m hm =>
      perform_writeValue hscene hapart hfield hm hfound n.schema w

theorem follows_encodeFields (hscene : root.SingleScene) (hapart : root.ScenesApart)
    {here : Address} {n : Node} (hn : root.at? here = some n) {fields : List Field}
    (hfields : ∀ f ∈ fields, f ∈ n.schema.fields) :
    Follows ctx root (encodeFields ctx root here n.schema fields)
      (Plain.encodeFields ctx here n.schema fields) := by
  induction fields with
  | nil => exact fun w => Agrees.pure ((), w)
  | cons f rest ih =>
    have hrest := ih fun g hg => hfields g (List.mem_cons_of_mem _ hg)
    by_cases hskip : f.emission = .skip
    · intro w
      have h := hrest w
      simpa [encodeFields, Plain.encodeFields, hskip] using h
    · intro w
      have hfield : Follows ctx root (encodeField ctx root here n.schema f)
          (Plain.encodeField ctx here n.schema f) :=
        follows_encodeField hscene hapart hn (hfields f List.mem_cons_self)
      have h := (hfield.andThen hrest) w
      simpa [encodeFields, Plain.encodeFields, hskip] using h

theorem follows_encodeDistribution (hscene : root.SingleScene) (here : Address) (schema : Schema)
    (slot : Slot) :
    Follows ctx root (encodeDistribution ctx root here schema slot)
      (Plain.encodeDistribution here schema slot) := by
  intro w
  simp only [encodeDistribution, Plain.encodeDistribution, StateT.run_bind, StateT.run_monadLift,
    monadLift_self, bind_assoc, pure_bind]
  refine (Agrees.distribution hscene here schema).bind fun d => ?_
  rw [ofExcept_map]
  refine ⟨Inquiry.monotone_ofExcept _, fun found => AgreesAt.still fun m _ => ?_⟩
  exact perform_put here.path _ w m

mutual

theorem follows_encodeNode (hscene : root.SingleScene) (hapart : root.ScenesApart)
    (hbelow : ∀ here n, root.at? here = some n → ∀ p ∈ n.children,
      root.at? (here ++ [p.1]) = some p.2) (here : Address) :
    ∀ n, root.at? here = some n →
      Follows ctx root (encodeNode ctx root here n) (Plain.encodeNode ctx here n)
  | ⟨schema, some slot, _, _⟩, _ => by
    intro w
    rw [encodeNode, Plain.encodeNode]
    exact follows_encodeDistribution hscene here schema slot w
  | ⟨schema, none, members, children⟩, hn => by
    have hfields : Follows ctx root (encodeFields ctx root here schema schema.fields)
        (Plain.encodeFields ctx here schema schema.fields) :=
      follows_encodeFields hscene hapart hn fun f hf => hf
    have hchildren := follows_encodeChildren hscene hapart hbelow here children (hbelow here _ hn)
    intro w
    rw [encodeNode, Plain.encodeNode]
    exact (hfields.andThen hchildren) w

theorem follows_encodeChildren (hscene : root.SingleScene) (hapart : root.ScenesApart)
    (hbelow : ∀ here n, root.at? here = some n → ∀ p ∈ n.children,
      root.at? (here ++ [p.1]) = some p.2) (here : Address) :
    ∀ children : List (String × Node), (∀ p ∈ children, root.at? (here ++ [p.1]) = some p.2) →
      Follows ctx root (encodeChildren ctx root here children)
        (Plain.encodeChildren ctx here children)
  | [], _ => by
    intro w
    rw [encodeChildren, Plain.encodeChildren]
    exact Agrees.pure ((), w)
  | (name, n) :: rest, hat => by
    have hfirst := follows_encodeNode hscene hapart hbelow (here ++ [name]) n
      (hat (name, n) List.mem_cons_self)
    have hrest := follows_encodeChildren hscene hapart hbelow here rest fun p hp =>
      hat p (List.mem_cons_of_mem _ hp)
    intro w
    rw [encodeChildren, Plain.encodeChildren]
    exact (hfirst.andThen hrest) w

end

theorem perform_entries_memory (owner : Section) (id : FieldId) (v : Value) (emission : Emission)
    (m : Memo) : (Resolution.perform (entries ctx owner id v emission) m).2 = m := by
  cases emission with
  | skip => rfl
  | leadingByte => rfl
  | flag element =>
    simp only [entries, require]
    cases v.bool? <;> rfl
  | float element =>
    simp only [entries, require]
    cases v.float? <;> rfl
  | seconds element =>
    simp only [entries, require]
    cases v.float? with
    | none => rfl
    | some x =>
      rw [Resolution.perform_bind_ok (Resolution.perform_pure x m)]
      cases endTime? x <;> rfl
  | sceneFile element =>
    simp only [entries, require]
    cases v.text? <;> rfl

theorem perform_writeValue_memory (schema : Schema) (f : Field) (id : FieldId) (v : Value)
    (w : Writer) (m : Memo) :
    (Resolution.perform ((writeValue ctx schema f id v).run w) m).2 = m := by
  unfold writeValue
  split
  · rw [StateT.run_bind, StateT.run_monadLift, require]
    cases v.code? <;> rfl
  · cases schema.owner with
    | none => rfl
    | some owner =>
      have hentries : (Resolution.perform (entries ctx owner id v f.emission) m).2 = m :=
        perform_entries_memory owner id v f.emission m
      simp only [StateT.run_bind, StateT.run_monadLift, monadLift_self, bind_assoc, pure_bind]
      rw [Resolution.perform_bind]
      cases hresult : Resolution.perform (entries ctx owner id v f.emission) m with
      | mk result m' =>
        rw [hresult] at hentries
        cases hentries
        cases result with
        | error c => rfl
        | ok list =>
          simp only
          rw [perform_putAll]

theorem preserves_encodeFields (hscene : root.SingleScene) (here : Address) (schema : Schema)
    (fields : List Field) (w : Writer) :
    Preserves ctx root ((encodeFields ctx root here schema fields).run w) := by
  induction fields generalizing w with
  | nil => exact Preserves.still fun _ => rfl
  | cons f rest ih =>
    by_cases hskip : f.emission = .skip
    · simpa [encodeFields, hskip] using ih w
    · have hfield : Preserves ctx root ((encodeField ctx root here schema f).run w) := by
        simp only [encodeField, StateT.run_bind, StateT.run_monadLift, monadLift_self, bind_assoc,
          pure_bind]
        refine (Agrees.resolve hscene here schema f.name).preserves.bind fun v => ?_
        exact Preserves.still fun m => perform_writeValue_memory schema f _ v w m
      simpa [encodeFields, hskip] using hfield.bind fun r => ih r.2

mutual

theorem preserves_encodeNode (hscene : root.SingleScene) (here : Address) :
    ∀ (n : Node) (w : Writer), Preserves ctx root ((encodeNode ctx root here n).run w)
  | ⟨schema, some slot, _, _⟩, w => by
    rw [encodeNode]
    exact (follows_encodeDistribution hscene here schema slot w).preserves
  | ⟨schema, none, _, children⟩, w => by
    rw [encodeNode, StateT.run_bind]
    refine (preserves_encodeFields hscene here schema schema.fields w).bind fun r => ?_
    exact preserves_encodeChildren hscene here children r.2

theorem preserves_encodeChildren (hscene : root.SingleScene) (here : Address) :
    ∀ (children : List (String × Node)) (w : Writer),
      Preserves ctx root ((encodeChildren ctx root here children).run w)
  | [], w => by
    rw [encodeChildren]
    exact Preserves.still fun _ => rfl
  | (name, n) :: rest, w => by
    rw [encodeChildren, StateT.run_bind]
    refine (preserves_encodeNode hscene (here ++ [name]) n w).bind fun r => ?_
    exact preserves_encodeChildren hscene here rest r.2

end

end Encoding
end CrowdScenario

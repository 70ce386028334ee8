import CrowdScenario.Proofs.Compilation.Scenes
import CrowdScenario.Proofs.Resolution.History
import CrowdScenario.Proofs.Resolution.Outside
import CrowdScenario.Proofs.Tree.Edits

/-!
# Trees that answer alike

If two trees have one outline and every field is evaluated in the same way in both, then no operation
tells them apart, whatever was done before, and they are encoded to the same bytes
(`Node.Alike.run_eq`, `Node.Alike.encode_eq`). So an edit that keeps the sections of a description and
the evaluation of its fields leaves the description interchangeable (`Edit.Once.interchangeable`).
-/

namespace CrowdScenario

/-- Two trees with one outline in which every field is evaluated alike, however the others are
read. -/
structure Node.Alike (ctx : Context) (root root' : Node) : Prop where
  outline : root.outline = root'.outline
  evaluate : ∀ id n n' f, root.field? id = some (n, f) → root'.field? id = some (n', f) →
    f.kind.isNested = false → ∀ read,
      Resolution.evaluate ctx root read n id f = Resolution.evaluate ctx root' read n' id f

namespace Resolution

section
variable {root root' : Node}

theorem follow_eq_of_outline (h : root.outline = root'.outline) (read : FieldId → Resolution Value)
    (expression path : String) :
    follow root read expression path = follow root' read expression path := by
  unfold follow
  cases Reference.parse? expression with
  | none => rfl
  | some reference => simp only [Node.locate?_eq_of_outline h]

theorem firstInput_eq_of_outline (h : root.outline = root'.outline)
    (read : FieldId → Resolution Value) (path : String) (sources : List Source) :
    firstInput root read path sources = firstInput root' read path sources := by
  induction sources with
  | nil => rfl
  | cons source rest ih =>
    cases source with
    | given i => rfl
    | reference expression required =>
      simp only [firstInput, follow_eq_of_outline h, ih]

theorem evaluate_eq_of_sources {ctx : Context} {n n' : Node} {f : Field}
    (h : root.outline = root'.outline)
    (hsources : n.sources ctx.settings.strictReferences f =
      n'.sources ctx.settings.strictReferences f)
    (read : FieldId → Resolution Value) (id : FieldId) :
    evaluate ctx root read n id f = evaluate ctx root' read n' id f := by
  rw [evaluate_eq, evaluate_eq, hsources, firstInput_eq_of_outline h]

end

end Resolution

theorem Node.sources_eq_of_supplied {n n' : Node} {f : Field} (hslot : n.slot? = n'.slot?)
    (h : Json.supplied? n.members f.name = Json.supplied? n'.members f.name) (strict : Bool) :
    n.sources strict f = n'.sources strict f := by
  rw [sources, sources, h, fallback?, fallback?, hslot]

namespace Node.Alike

variable {ctx : Context} {registry : Registry} {root root' : Node}

theorem resolveAmong_eq (h : Alike ctx root root') (hbuilt : root.Built registry)
    (free : List FieldId) (hfree : ∀ id ∈ free, id ∈ root.scalars []) :
    Resolution.resolveAmong ctx root free = Resolution.resolveAmong ctx root' free := by
  -- The induction is on the number of fields that may still be started.
  induction hn : free.length using Nat.strongRecOn generalizing free with
  | _ size ih =>
    funext id
    rw [Resolution.resolveAmong, Resolution.resolveAmong]
    refine bind_congr fun memo => ?_
    cases memo.value? id with
    | some v => rfl
    | none =>
      simp only
      by_cases hbusy : id ∈ memo.underway
      · rw [if_pos hbusy, if_pos hbusy]
      rw [if_neg hbusy, if_neg hbusy]
      by_cases hid : id ∈ free
      · rw [dif_pos hid, dif_pos hid]
        cases hfield : root.field? id with
        | none => rw [field?_eq_none_of_outline h.outline hfield]
        | some p =>
          rcases p with ⟨n, f⟩
          obtain ⟨n', hfield', -⟩ := field?_of_outline h.outline hfield
          have hplain := hbuilt.plain_of_mem_scalars (hfree id hid) hfield
          have hlt := Resolution.length_others_lt hid
          rw [hn] at hlt
          have hread := ih _ hlt (Resolution.others free id)
            (fun x hx => hfree x (List.mem_of_mem_filter hx)) rfl
          simp only [hfield', hread, h.evaluate id n n' f hfield hfield' hplain]
      · rw [dif_neg hid, dif_neg hid]

theorem resolveField_eq (h : Alike ctx root root') (hbuilt : root.Built registry) :
    Resolution.resolveField ctx root = Resolution.resolveField ctx root' := by
  funext id
  have hscalars := scalars_eq_of_outline h.outline []
  rw [Resolution.resolveField, h.resolveAmong_eq hbuilt _ fun _ hid => hid,
    Resolution.resolveField, hscalars]

theorem resolve_eq (h : Alike ctx root root') (hbuilt : root.Built registry) (here : Address)
    (schema : Schema) (name : String) :
    Resolution.resolve ctx root here schema name = Resolution.resolve ctx root' here schema name := by
  simp only [Resolution.resolve, h.resolveField_eq hbuilt]

theorem lookup_eq (h : Alike ctx root root') (hbuilt : root.Built registry) (here : Address)
    (schema : Schema) (name : String) :
    Resolution.lookup ctx root here schema name = Resolution.lookup ctx root' here schema name := by
  simp only [Resolution.lookup, h.resolveField_eq hbuilt]

theorem resolveReference_eq (h : Alike ctx root root') (hbuilt : root.Built registry)
    (expression : String) :
    Resolution.resolveReference ctx root expression =
      Resolution.resolveReference ctx root' expression := by
  rw [Resolution.resolveReference, h.resolveField_eq hbuilt,
    Resolution.follow_eq_of_outline h.outline, Resolution.resolveReference]

theorem distributionKind_eq (h : Alike ctx root root') (hbuilt : root.Built registry)
    (here : Address) (schema : Schema) :
    Resolution.distributionKind ctx root here schema =
      Resolution.distributionKind ctx root' here schema := by
  simp only [Resolution.distributionKind, h.resolve_eq hbuilt]

theorem distribution_eq (h : Alike ctx root root') (hbuilt : root.Built registry) (here : Address)
    (schema : Schema) :
    Resolution.distribution ctx root here schema = Resolution.distribution ctx root' here schema := by
  simp only [Resolution.distribution, Resolution.distributionNumber, h.distributionKind_eq hbuilt,
    h.resolve_eq hbuilt]

theorem step_run_eq (h : Alike ctx root root') (hbuilt : root.Built registry) (s : Encoding.Step) :
    s.run ctx root = s.run ctx root' := by
  cases s with
  | field here schema f => simp only [Encoding.Step.run, Encoding.encodeField, h.resolve_eq hbuilt]
  | distribution here schema slot =>
    simp only [Encoding.Step.run, Encoding.encodeDistribution, h.distribution_eq hbuilt]

theorem runAll_eq (h : Alike ctx root root') (hbuilt : root.Built registry)
    (ss : List Encoding.Step) : Encoding.runAll ctx root ss = Encoding.runAll ctx root' ss := by
  induction ss with
  | nil => rfl
  | cons s ss ih => rw [Encoding.runAll, h.step_run_eq hbuilt, ih, Encoding.runAll]

theorem encodeNode_eq (h : Alike ctx root root') (hbuilt : root.Built registry) (here : Address)
    {n n' : Node} (hn : n.outline = n'.outline) :
    Encoding.encodeNode ctx root here n = Encoding.encodeNode ctx root' here n' := by
  rw [Encoding.encodeNode_eq_runAll, Encoding.encodeNode_eq_runAll, h.runAll_eq hbuilt,
    Encoding.steps_eq_of_outline hn]

theorem encode_eq (h : Alike ctx root root') (hbuilt : root.Built registry) :
    Compilation.encode ctx root = Compilation.encode ctx root' := by
  rw [Compilation.encode, h.encodeNode_eq hbuilt [] h.outline, Compilation.encode]

/-! ### Operations -/

theorem inSection_eq {μ : Type → Type} [Monad μ] (houtline : root.outline = root'.outline)
    (here : Address) {f f' : Node → μ Answer}
    (hf : ∀ n n', n.outline = n'.outline → f n = f' n') :
    Operation.inSection root here f = Operation.inSection root' here f' := by
  unfold Operation.inSection
  cases hn : root.at? here with
  | none => rw [at?_eq_none_of_outline houtline hn]
  | some n =>
    obtain ⟨n', hn', hsame⟩ := at?_of_outline houtline hn
    rw [hn']
    exact hf n n' hsame

theorem inDistribution_eq {μ : Type → Type} [Monad μ] (houtline : root.outline = root'.outline)
    (here : Address) {f f' : Schema → Slot → μ Answer}
    (hf : ∀ schema slot, f schema slot = f' schema slot) :
    Operation.inDistribution root here f = Operation.inDistribution root' here f' := by
  refine inSection_eq houtline here fun n n' hsame => ?_
  rw [schema_eq_of_outline hsame, slot?_eq_of_outline hsame]
  cases n'.slot? with
  | none => rfl
  | some slot => exact hf n'.schema slot

theorem run_eq (h : Alike ctx root root') (hbuilt : root.Built registry) (op : Operation) :
    op.run ctx root = op.run ctx root' := by
  cases op with
  | resolve here name =>
    refine inSection_eq h.outline here fun n n' hsame => ?_
    rw [h.resolve_eq hbuilt, schema_eq_of_outline hsame]
  | lookup here name =>
    refine inSection_eq h.outline here fun n n' hsame => ?_
    rw [h.lookup_eq hbuilt, schema_eq_of_outline hsame]
  | tryResolve expression =>
    simp only [Operation.run, h.resolveReference_eq hbuilt]
  | mustResolve expression =>
    simp only [Operation.run, Resolution.requireReference, h.resolveReference_eq hbuilt]
  | kind here =>
    simp only [Operation.run]
    refine inDistribution_eq h.outline here fun schema slot => ?_
    rw [h.distributionKind_eq hbuilt]
  | value here =>
    simp only [Operation.run]
    refine inDistribution_eq h.outline here fun schema slot => ?_
    rw [h.distribution_eq hbuilt]
  | write here w =>
    simp only [Operation.run]
    refine inDistribution_eq h.outline here fun schema slot => ?_
    simp only [Encoding.encodeDistribution, h.distribution_eq hbuilt]
  | encode here w =>
    refine inSection_eq h.outline here fun n n' hsame => ?_
    rw [h.encodeNode_eq hbuilt here hsame]

theorem after_eq (h : Alike ctx root root') (hbuilt : root.Built registry)
    (history : List Operation) (m : Memo) :
    Operation.after ctx root history m = Operation.after ctx root' history m := by
  induction history generalizing m with
  | nil => rfl
  | cons op rest ih => rw [Operation.after, h.run_eq hbuilt, ih, Operation.after]

end Node.Alike

/-- Members of a description that can stand for one another: there is the same tree or the same
failure, every operation answers the same and leaves the same memory behind, and the documents are
the same. -/
structure Json.Interchangeable (registry : Registry) (members members' : Json.Members) : Prop where
  outlines : (Node.ofDescription registry members).map Node.outline =
    (Node.ofDescription registry members').map Node.outline
  answers : ∀ root root', Node.ofDescription registry members = .ok root →
    Node.ofDescription registry members' = .ok root' →
      ∀ (ctx : Context) (history : List Operation) (op : Operation),
        Resolution.perform (op.run ctx root) (Operation.after ctx root history .empty) =
          Resolution.perform (op.run ctx root') (Operation.after ctx root' history .empty)
  documents : ∀ settings ingest directory?,
    compile settings registry ingest ⟨members, directory?⟩ =
      compile settings registry ingest ⟨members', directory?⟩

namespace Json.Interchangeable

variable {registry : Registry} {members members' members'' : Json.Members}

theorem refl (registry : Registry) (members : Json.Members) :
    Interchangeable registry members members where
  outlines := rfl
  answers root root' hroot hroot' ctx history op := by
    rw [hroot] at hroot'
    cases hroot'
    rfl
  documents _ _ _ := rfl

theorem trans (h : Interchangeable registry members members')
    (h' : Interchangeable registry members' members'') :
    Interchangeable registry members members'' where
  outlines := h.outlines.trans h'.outlines
  answers root root'' hroot hroot'' ctx history op := by
    have houtlines := h.outlines
    rw [hroot] at houtlines
    cases hroot' : Node.ofDescription registry members' with
    | error e =>
      rw [hroot'] at houtlines
      cases houtlines
    | ok root' =>
      exact (h.answers root root' hroot hroot' ctx history op).trans
        (h'.answers root' root'' hroot' hroot'' ctx history op)
  documents settings ingest directory? :=
    (h.documents settings ingest directory?).trans (h'.documents settings ingest directory?)

theorem of_steps {step : Json.Members → Json.Members → Prop}
    (hstep : ∀ members members', step members members' → Interchangeable registry members members')
    (h : Relation.ReflTransGen step members members') :
    Interchangeable registry members members' := by
  induction h with
  | refl => exact refl registry members
  | tail _ hlast ih => exact ih.trans (hstep _ _ hlast)

end Json.Interchangeable

/-- Where an edit keeps the sections of a description and the evaluation of every field, what is
edited is interchangeable. -/
theorem Edit.Once.interchangeable {registry : Registry} {edit : Edit}
    {members members' : Json.Members} (h : edit.Once registry members members')
    (hkeeps : edit.KeepsSections registry)
    (halike : ∀ root root', Node.ofDescription registry members = .ok root →
      Node.ofDescription registry members' = .ok root' → root.Edited edit [] root' →
        ∀ ctx, root.Alike ctx root') :
    Json.Interchangeable registry members members' where
  outlines := (h.edited hkeeps).map_eq fun _ _ hedited => hedited.outline
  answers root root' hroot hroot' ctx history op := by
    have hmatches := h.edited hkeeps
    rw [hroot, hroot'] at hmatches
    cases hmatches with
    | ok hedited =>
      have hsame := halike root root' hroot hroot' hedited ctx
      have hbuilt := Node.built_ofDescription hroot
      rw [hsame.after_eq hbuilt, hsame.run_eq hbuilt]
  documents settings ingest directory? := by
    have hmatches := h.edited hkeeps
    unfold compile Compilation.run
    cases hroot : Node.ofDescription registry members with
    | error e =>
      rw [hroot] at hmatches
      generalize Node.ofDescription registry members' = result at hmatches
      cases hmatches
      rfl
    | ok root =>
      cases hroot' : Node.ofDescription registry members' with
      | error e =>
        rw [hroot, hroot'] at hmatches
        cases hmatches
      | ok root' =>
        rw [hroot, hroot'] at hmatches
        cases hmatches with
        | ok hedited =>
          have hsame := halike root root' hroot hroot' hedited ⟨settings, directory?, ingest⟩
          simp only [hsame.encode_eq (Node.built_ofDescription hroot)]

theorem Node.Edited.supplied_or_edit {edit : Edit} {root root' n n' : Node} {id : FieldId}
    {f : Field} (hedited : root.Edited edit [] root') (hfield : root.field? id = some (n, f))
    (hfield' : root'.field? id = some (n', f)) (hplain : f.kind.isNested = false) :
    n.slot? = n'.slot? ∧ (Json.supplied? n.members f.name = Json.supplied? n'.members f.name ∨
      edit id.owner n.schema n.slot? n.members n'.members) := by
  obtain ⟨hn, hf⟩ := Node.field?_eq_some.mp hfield
  obtain ⟨hn', -⟩ := Node.field?_eq_some.mp hfield'
  obtain ⟨_, hat, hsame⟩ := Node.at?_of_outline hedited.outline hn
  rw [hn'] at hat
  cases hat
  refine ⟨Node.slot?_eq_of_outline hsame, ?_⟩
  cases hedited.members id.owner n n' hn hn' with
  | inl hvalues => exact .inl (hvalues f (Schema.mem_of_field? hf).1 hplain)
  | inr hchange => exact .inr hchange

/-- The trees are alike if the fields of an edited block are evaluated alike. -/
theorem Node.Edited.alike {edit : Edit} {ctx : Context} {root root' : Node}
    (hedited : root.Edited edit [] root')
    (hedit : ∀ id n n' f, root.field? id = some (n, f) → f.kind.isNested = false →
      n.slot? = n'.slot? → edit id.owner n.schema n.slot? n.members n'.members →
        ∀ read, Resolution.evaluate ctx root read n id f =
          Resolution.evaluate ctx root' read n' id f) : root.Alike ctx root' where
  outline := hedited.outline
  evaluate id n n' f hfield hfield' hplain read := by
    obtain ⟨hslot, hsupplied | hchange⟩ := hedited.supplied_or_edit hfield hfield' hplain
    · exact Resolution.evaluate_eq_of_sources hedited.outline
        (Node.sources_eq_of_supplied hslot hsupplied _) read id
    · exact hedit id n n' f hfield hplain hslot hchange read

theorem Edit.alike_of_sameValues {edit : Edit} {root root' : Node}
    (hvalues : ∀ {here schema slot? members members'}, edit here schema slot? members members' →
      Edit.SameValues schema members members')
    (hedited : root.Edited edit [] root') (ctx : Context) : root.Alike ctx root' := by
  refine hedited.alike fun id n n' f hfield hplain hslot hchange read => ?_
  obtain ⟨-, hf⟩ := Node.field?_eq_some.mp hfield
  have hsupplied := hvalues hchange f (Schema.mem_of_field? hf).1 hplain
  exact Resolution.evaluate_eq_of_sources hedited.outline
    (Node.sources_eq_of_supplied hslot hsupplied _) read id

end CrowdScenario

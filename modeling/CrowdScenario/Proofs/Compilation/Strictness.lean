import CrowdScenario.Compilation
import CrowdScenario.Proofs.Resolution.Strictness
import CrowdScenario.Proofs.Tree.Failures

/-!
# Strict and lenient compilation

Strict references only ever add one kind of failure: a document that compiles strictly compiles
leniently to the same bytes, and a strict compilation that fails where the lenient one does not
blames a reference that leads nowhere (`compile_strict_or_dangles`).
-/

namespace CrowdScenario

open Resolution

theorem Node.blamesNone_ofDescription {registry : Registry} (members : Json.Members) :
    BlamesNone (ofDescription registry members) := by
  intro e he
  have htree := failure_of_ofDescription he
  cases e with
  | unresolvedReference expression path => cases htree
  | malformedReference expression path => cases htree
  | cyclicReference path => cases htree
  | _ => rfl

namespace Encoding

theorem writeValue_withStrict (ctx : Context) (strict : Bool) (schema : Schema) (f : Field)
    (id : FieldId) (v : Value) :
    writeValue (ctx.withStrict strict) schema f id v = writeValue ctx schema f id v := by
  have hentries : ∀ owner emission, entries (ctx.withStrict strict) owner id v emission =
      entries ctx owner id v emission := by
    intro owner emission
    cases emission <;> rfl
  simp only [writeValue, hentries]

/-- Whatever has been written, a strict encoder relaxes to a lenient one. -/
def RelaxesTo (strict lenient : Encoder Unit) : Prop := ∀ w, Relaxes (strict.run w) (lenient.run w)

theorem RelaxesTo.nothing : RelaxesTo (pure ()) (pure ()) := fun w => .same (.pure ((), w))

theorem RelaxesTo.andThen {strict lenient next next' : Encoder Unit} (h : RelaxesTo strict lenient)
    (hnext : RelaxesTo next next') :
    RelaxesTo (strict >>= fun _ => next) (lenient >>= fun _ => next') := by
  intro w
  rw [StateT.run_bind, StateT.run_bind]
  exact (h w).bind fun r => hnext r.2

variable {ctx : Context} {root : Node}

theorem relaxes_encodeField (here : Address) (schema : Schema) (f : Field) :
    RelaxesTo (encodeField (ctx.withStrict true) root here schema f)
      (encodeField (ctx.withStrict false) root here schema f) := by
  intro w
  simp only [encodeField, StateT.run_bind, StateT.run_monadLift, monadLift_self, bind_assoc,
    pure_bind, writeValue_withStrict]
  refine (relaxes_resolve here schema f.name).bind fun v => ?_
  exact .same (blameless_writeValue ctx schema f _ v w)

theorem relaxes_encodeFields (here : Address) (schema : Schema) (fields : List Field) :
    RelaxesTo (encodeFields (ctx.withStrict true) root here schema fields)
      (encodeFields (ctx.withStrict false) root here schema fields) := by
  induction fields with
  | nil => exact .nothing
  | cons f rest ih =>
    by_cases hskip : f.emission = .skip
    · simpa [encodeFields, hskip] using ih
    · simpa [encodeFields, hskip] using (relaxes_encodeField here schema f).andThen ih

theorem relaxes_encodeDistribution (here : Address) (schema : Schema) (slot : Slot) :
    RelaxesTo (encodeDistribution (ctx.withStrict true) root here schema slot)
      (encodeDistribution (ctx.withStrict false) root here schema slot) := by
  intro w
  simp only [encodeDistribution, StateT.run_bind, StateT.run_monadLift, monadLift_self, bind_assoc,
    pure_bind]
  exact (relaxes_distribution here schema).bind fun d => .same (blameless_put _ _ w)

mutual

theorem relaxes_encodeNode (here : Address) : ∀ n : Node,
    RelaxesTo (encodeNode (ctx.withStrict true) root here n)
      (encodeNode (ctx.withStrict false) root here n)
  | ⟨schema, some slot, _, _⟩ => by
    rw [encodeNode, encodeNode]
    exact relaxes_encodeDistribution here schema slot
  | ⟨schema, none, _, children⟩ => by
    rw [encodeNode, encodeNode]
    exact (relaxes_encodeFields here schema schema.fields).andThen
      (relaxes_encodeChildren here children)

theorem relaxes_encodeChildren (here : Address) : ∀ children : List (String × Node),
    RelaxesTo (encodeChildren (ctx.withStrict true) root here children)
      (encodeChildren (ctx.withStrict false) root here children)
  | [] => by
    rw [encodeChildren, encodeChildren]
    exact .nothing
  | (name, n) :: rest => by
    rw [encodeChildren, encodeChildren]
    exact (relaxes_encodeNode (here ++ [name]) n).andThen (relaxes_encodeChildren here rest)

end

end Encoding

theorem relaxes_encode (ctx : Context) (root : Node) :
    Relaxes (Compilation.encode (ctx.withStrict true) root)
      (Compilation.encode (ctx.withStrict false) root) :=
  (Encoding.relaxes_encodeNode [] root .empty).bind fun _ => .same (.pure _)

/-- Strict references compile a description to the document or the failure that lenient ones give,
unless they stop at a reference that leads nowhere, which lenient ones never do. -/
theorem compile_strict_or_dangles (settings : Settings) (registry : Registry) (ingest : Ingestor)
    (d : Description) :
    (compile (settings.withStrict true) registry ingest d =
        compile (settings.withStrict false) registry ingest d ∨
      ∃ expression path, compile (settings.withStrict true) registry ingest d =
        .error (.unresolvedReference expression path)) ∧
    (∀ c, compile (settings.withStrict true) registry ingest d = .ok c →
      compile (settings.withStrict false) registry ingest d = .ok c) ∧
    ∀ expression path, compile (settings.withStrict false) registry ingest d ≠
      .error (.unresolvedReference expression path) := by
  have hrelaxed : ¬ Dangles (compile (settings.withStrict false) registry ingest d) ∧
      (Dangles (compile (settings.withStrict true) registry ingest d) ∨
        compile (settings.withStrict true) registry ingest d =
          compile (settings.withStrict false) registry ingest d) := by
    unfold compile Compilation.run
    cases hroot : Node.ofDescription registry d.members with
    | error e =>
      have hblame := Node.blamesNone_ofDescription _ e hroot
      exact ⟨(BlamesNone.error hblame).not_dangles, .inr rfl⟩
    | ok root =>
      obtain ⟨hlenient, hstrict⟩ :=
        relaxes_encode ⟨settings, d.directory?, ingest⟩ root .empty
      exact ⟨hlenient, hstrict.imp id (congrArg Prod.fst)⟩
  obtain ⟨hlenient, hstrict⟩ := hrelaxed
  refine ⟨hstrict.symm, ?_, fun expression path h => hlenient ⟨expression, path, h⟩⟩
  intro c hc
  cases hstrict with
  | inl hdangles =>
    obtain ⟨expression, path, herror⟩ := hdangles
    rw [hc] at herror
    cases herror
  | inr hsame => rw [← hsame, hc]

end CrowdScenario

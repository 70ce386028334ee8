import CrowdScenario.Proofs.Resolution.Blame

/-!
# Strict and lenient references

A strict context requires the references of authors to lead somewhere, a lenient one does not. From
the same memory a step in a strict context either stops at a reference that leads nowhere, or ends
as in the lenient context and leaves the same memory behind; the lenient step never stops there
(`relaxes_resolve`).
-/

namespace CrowdScenario

def Settings.withStrict (s : Settings) (strict : Bool) : Settings :=
  { s with strictReferences := strict }

def Context.withStrict (ctx : Context) (strict : Bool) : Context :=
  { ctx with settings := ctx.settings.withStrict strict }

def Dangles {α : Type} (result : Except CompileError α) : Prop :=
  ∃ expression path, result = .error (.unresolvedReference expression path)

theorem not_dangles_ok {α : Type} (a : α) : ¬ Dangles (.ok a) := nofun

theorem dangles_error {α β : Type} {e : CompileError} :
    Dangles (.error e : Except CompileError α) ↔ Dangles (.error e : Except CompileError β) := by
  simp only [Dangles, Except.error.injEq]

theorem BlamesNone.not_dangles {α : Type} {result : Except CompileError α} (h : BlamesNone result) :
    ¬ Dangles result := by
  rintro ⟨expression, path, hresult⟩
  cases h _ hresult

def Source.lenient : Source → Source
  | given input => given input
  | reference expression _ => reference expression false

theorem Source.lenient_ofAuthor (j : Json) :
    (Source.ofAuthor true j).lenient = Source.ofAuthor false j := by
  unfold Source.ofAuthor
  cases (Input.json j).reference? <;> rfl

theorem Source.lenient_ofDefault (d : Default) :
    (Source.ofDefault d).lenient = Source.ofDefault d := by
  cases d <;> rfl

/-- Strictness changes nothing about the sources of a field but what an author's reference must
do. -/
theorem Node.sources_lenient (n : Node) (f : Field) :
    n.sources false f = (n.sources true f).map Source.lenient := by
  unfold Node.sources
  cases Json.supplied? n.members f.name <;>
    simp [Function.comp_def, Source.lenient_ofAuthor, Source.lenient_ofDefault]

namespace Resolution

/-- The lenient step never ends at a reference that leads nowhere, and the strict one ends there or
as the lenient one. -/
def Relaxes {α : Type} (strict lenient : Resolution α) : Prop :=
  ∀ m, ¬ Dangles (perform lenient m).1 ∧
    (Dangles (perform strict m).1 ∨ perform strict m = perform lenient m)

namespace Relaxes

theorem same {α : Type} {step : Resolution α} (h : Blameless step) : Relaxes step step :=
  fun m => ⟨(h m).not_dangles, .inr rfl⟩

theorem bind {α β : Type} {strict lenient : Resolution α} {next next' : α → Resolution β}
    (h : Relaxes strict lenient) (hnext : ∀ a, Relaxes (next a) (next' a)) :
    Relaxes (strict >>= next) (lenient >>= next') := by
  intro m
  obtain ⟨hlenient, hstrict⟩ := h m
  cases hresult : perform lenient m with
  | mk result m' =>
    rw [hresult] at hlenient hstrict
    cases hstrict with
    | inl hdangles =>
      -- The strict step stops here, whatever the lenient one goes on to do.
      obtain ⟨expression, path, herror⟩ := hdangles
      have hstop : perform (strict >>= next) m =
          (.error (.unresolvedReference expression path), (perform strict m).2) :=
        perform_bind_error (Prod.ext herror rfl)
      refine ⟨?_, .inl ⟨expression, path, by rw [hstop]⟩⟩
      cases result with
      | ok a =>
        rw [perform_bind_ok hresult]
        exact (hnext a m').1
      | error e =>
        rw [perform_bind_error hresult]
        exact mt dangles_error.mp hlenient
    | inr hsame =>
      cases result with
      | ok a =>
        rw [perform_bind_ok hresult, perform_bind_ok hsame]
        exact hnext a m'
      | error e =>
        rw [perform_bind_error hresult, perform_bind_error hsame]
        exact ⟨mt dangles_error.mp hlenient, .inr rfl⟩

theorem stop {α : Type} {lenient : Resolution α} (expression path : String)
    (h : Relaxes lenient lenient) :
    Relaxes (throw (.unresolvedReference expression path)) lenient :=
  fun m => ⟨(h m).1, .inl ⟨expression, path, rfl⟩⟩

theorem right {α : Type} {strict lenient : Resolution α} (h : Relaxes strict lenient) :
    Relaxes lenient lenient := fun m => ⟨(h m).1, .inr rfl⟩

end Relaxes

section
variable {root : Node} {read read' : FieldId → Resolution Value}

theorem relaxes_readTarget (hread : ∀ id, Relaxes (read id) (read' id)) (t : Node.Target) :
    Relaxes (readTarget read t) (readTarget read' t) := by
  refine (hread t.field).bind fun v => ?_
  split
  · exact .same (.pure _)
  · exact .same (Blameless.memory.bind fun _ => .pure _)

theorem relaxes_follow (hread : ∀ id, Relaxes (read id) (read' id)) (expression path : String) :
    Relaxes (follow root read expression path) (follow root read' expression path) := by
  unfold follow
  split
  · intro m
    exact ⟨nofun, .inr rfl⟩
  · split
    · exact .same (.pure _)
    · exact relaxes_readTarget hread _

theorem relaxes_firstInput (hread : ∀ id, Relaxes (read id) (read' id)) (path : String)
    (sources : List Source) :
    Relaxes (firstInput root read path sources)
      (firstInput root read' path (sources.map Source.lenient)) := by
  induction sources with
  | nil => exact .same (.pure _)
  | cons source rest ih =>
    cases source with
    | given i => exact .same (.pure _)
    | reference expression required =>
      refine (relaxes_follow hread expression path).bind fun v? => ?_
      cases v? with
      | some v => exact .same (.pure _)
      | none =>
        cases required with
        | true => exact .stop expression path ih.right
        | false => exact ih

theorem relaxes_whileUnderway {strict lenient : Resolution Value} (id : FieldId)
    (h : Relaxes strict lenient) :
    Relaxes (whileUnderway id strict) (whileUnderway id lenient) := by
  intro m
  obtain ⟨hlenient, hstrict⟩ := h (m.start id)
  cases hresult : perform lenient (m.start id) with
  | mk result m' =>
    rw [hresult] at hlenient hstrict
    have hended : ¬ Dangles (perform (whileUnderway id lenient) m).1 := by
      cases result with
      | ok v =>
        rw [perform_whileUnderway_ok hresult]
        exact not_dangles_ok v
      | error e =>
        rw [perform_whileUnderway_error hresult]
        exact hlenient
    refine ⟨hended, ?_⟩
    cases hstrict with
    | inl hdangles =>
      obtain ⟨expression, path, herror⟩ := hdangles
      refine .inl ⟨expression, path, ?_⟩
      rw [perform_whileUnderway_error (Prod.ext herror rfl)]
    | inr hsame =>
      refine .inr ?_
      cases result with
      | ok v => rw [perform_whileUnderway_ok hresult, perform_whileUnderway_ok hsame]
      | error e => rw [perform_whileUnderway_error hresult, perform_whileUnderway_error hsame]

variable {ctx : Context}

theorem relaxes_evaluate (hread : ∀ id, Relaxes (read id) (read' id)) (n : Node) (id : FieldId)
    (f : Field) :
    Relaxes (evaluate (ctx.withStrict true) root read n id f)
      (evaluate (ctx.withStrict false) root read' n id f) := by
  rw [evaluate_eq, evaluate_eq]
  have hsources : Relaxes (firstInput root read id.path (n.sources true f))
      (firstInput root read' id.path (n.sources false f)) := by
    rw [n.sources_lenient]
    exact relaxes_firstInput hread id.path _
  -- What is done with an input does not depend on strictness.
  exact hsources.bind fun input? =>
    .same (blameless_complete (ctx.withStrict false) id f.kind input?)

theorem relaxes_resolveAmong (free : List FieldId) (id : FieldId) :
    Relaxes (resolveAmong (ctx.withStrict true) root free id)
      (resolveAmong (ctx.withStrict false) root free id) := by
  -- The induction is on the fields that may still be started, as in resolution itself.
  induction hn : free.length using Nat.strongRecOn generalizing free id with
  | _ size ih =>
    rw [resolveAmong, resolveAmong]
    refine (Relaxes.same .memory).bind fun memo => ?_
    cases memo.value? id with
    | some v => exact .same (.pure v)
    | none =>
      simp only
      by_cases hbusy : id ∈ memo.underway
      · rw [if_pos hbusy, if_pos hbusy]
        intro m
        refine ⟨?_, .inr rfl⟩
        rintro ⟨expression, path, hcyclic⟩
        cases hcyclic
      · rw [if_neg hbusy, if_neg hbusy]
        by_cases hfree : id ∈ free
        · rw [dif_pos hfree, dif_pos hfree]
          cases root.field? id with
          | none => exact .same (.throw rfl)
          | some p =>
            have hlt := length_others_lt hfree
            rw [hn] at hlt
            exact relaxes_whileUnderway id
              (relaxes_evaluate (fun x => ih _ hlt (others free id) x rfl) p.1 id p.2)
        · rw [dif_neg hfree, dif_neg hfree]
          exact .same (.throw rfl)

theorem relaxes_resolve (here : Address) (schema : Schema) (name : String) :
    Relaxes (resolve (ctx.withStrict true) root here schema name)
      (resolve (ctx.withStrict false) root here schema name) := by
  unfold resolve
  cases schema.field? name with
  | none => exact .same (.throw rfl)
  | some f =>
    simp only
    split
    · exact .same (.throw rfl)
    · exact relaxes_resolveAmong _ _

theorem relaxes_distributionKind (here : Address) (schema : Schema) :
    Relaxes (distributionKind (ctx.withStrict true) root here schema)
      (distributionKind (ctx.withStrict false) root here schema) := by
  refine (relaxes_resolve here schema _).bind fun v => ?_
  simp only
  split
  · exact .same (.pure _)
  · exact .same (.throw rfl)

theorem relaxes_distributionNumber (here : Address) (schema : Schema) (name : String) :
    Relaxes (distributionNumber (ctx.withStrict true) root here schema name)
      (distributionNumber (ctx.withStrict false) root here schema name) := by
  refine (relaxes_resolve here schema name).bind fun v => ?_
  split
  · exact .same (.pure _)
  · exact .same (.throw rfl)

theorem relaxes_distribution (here : Address) (schema : Schema) :
    Relaxes (distribution (ctx.withStrict true) root here schema)
      (distribution (ctx.withStrict false) root here schema) :=
  (relaxes_distributionKind here schema).bind fun kind =>
    (relaxes_distributionNumber here schema kind.firstName).bind fun _ =>
      (relaxes_distributionNumber here schema kind.secondName).bind fun _ => .same (.pure _)

end
end Resolution
end CrowdScenario

import CrowdScenario.Proofs.Resolution.Agreement

/-!
# Questions to a tree agree with plain evaluation

Whatever a tree is asked while nothing is under way, the answer is that of plain evaluation.
-/

namespace CrowdScenario

variable {ctx : Context} {root : Node}

theorem AgreesAt.resolve_bind {β : Type} {found : Findings} {here : Address} {schema : Schema}
    {name : String} {next : Value → Resolution β} {q : Evaluated → Inquiry β}
    (hscene : root.SingleScene)
    (hq : ∀ e found', found'.lookup ⟨here, name⟩ = some e →
      AgreesAt ctx root [] found' (next e.value) (q e)) :
    AgreesAt ctx root [] found (Resolution.resolve ctx root here schema name >>= next)
      (Plain.resolve here schema name >>= q) := by
  have hfail (e : CompileError) : AgreesAt ctx root [] found
      ((throw e : Resolution Value) >>= next) (Plain.ofExcept (.error e) >>= q) := by
    intro m hm
    exact ⟨m, found, Resolution.perform_bind_error (Resolution.perform_throw e m), hm,
      List.suffix_rfl, nofun⟩
  unfold Resolution.resolve Plain.resolve
  cases schema.field? name with
  | none => exact hfail _
  | some f =>
    simp only
    split
    · exact hfail _
    · exact AgreesAt.read_bind (reads_resolveField hscene) hq

namespace Plain

open Inquiry

theorem monotone_resolve (here : Address) (schema : Schema) (name : String) :
    Monotone (resolve here schema name) := by
  unfold resolve
  split
  · exact monotone_ofExcept _
  · split
    · exact monotone_ofExcept _
    · exact monotone_ask _

end Plain

namespace Agrees

theorem resolve_bind {β : Type} {here : Address} {schema : Schema} {name : String}
    {next : Value → Resolution β} {q : Evaluated → Inquiry β} (hscene : root.SingleScene)
    (hq : ∀ e, Agrees ctx root [] (next e.value) (q e)) :
    Agrees ctx root [] (Resolution.resolve ctx root here schema name >>= next)
      (Plain.resolve here schema name >>= q) where
  monotone := Inquiry.monotone_bind (Plain.monotone_resolve here schema name) fun e =>
    (hq e).monotone
  agreesAt _ := AgreesAt.resolve_bind hscene fun e found' _ => (hq e).agreesAt found'

theorem resolve (hscene : root.SingleScene) (here : Address) (schema : Schema) (name : String) :
    Agrees ctx root [] (Resolution.resolve ctx root here schema name)
      (Plain.resolve here schema name >>= fun e => Pure.pure e.value) := by
  have hagrees : Agrees ctx root [] (Resolution.resolve ctx root here schema name >>= Pure.pure)
      (Plain.resolve here schema name >>= fun e => Pure.pure e.value) :=
    resolve_bind hscene fun e => pure e.value
  rwa [bind_pure] at hagrees

theorem lookup (hscene : root.SingleScene) {here : Address} {n : Node}
    (hn : root.at? here = some n) (name : String) :
    Agrees ctx root [] (Resolution.lookup ctx root here n.schema name)
      (Plain.lookup here n.schema name) := by
  unfold Resolution.lookup Plain.lookup
  cases htarget : Node.target? n.schema here name [] with
  | none => exact pure _
  | some t =>
    exact agrees_readTarget hscene (reads_resolveField hscene) (Node.target?_ofScene hn htarget)

theorem resolveReference (hscene : root.SingleScene) (expression : String) :
    Agrees ctx root [] (Resolution.resolveReference ctx root expression)
      (Plain.follow root expression Resolution.documentPath) :=
  agrees_follow hscene (reads_resolveField hscene) expression Resolution.documentPath

theorem requireReference (hscene : root.SingleScene) (expression : String) :
    Agrees ctx root [] (Resolution.requireReference ctx root expression)
      (Plain.requireReference root expression) := by
  refine (resolveReference hscene expression).bind fun v? => ?_
  cases v? with
  | none => exact throw _
  | some v => exact pure v

theorem distributionKind (hscene : root.SingleScene) (here : Address) (schema : Schema) :
    Agrees ctx root [] (Resolution.distributionKind ctx root here schema)
      (Plain.distributionKind here schema) := by
  refine resolve_bind hscene fun e => ?_
  simp only
  cases DistributionKind.ofName? (e.value.text?.getD "") with
  | none => exact throw _
  | some kind => exact pure kind

theorem distributionNumber (hscene : root.SingleScene) (here : Address) (schema : Schema)
    (name : String) : Agrees ctx root [] (Resolution.distributionNumber ctx root here schema name)
      (Plain.distributionNumber here schema name) := by
  refine resolve_bind hscene fun e => ?_
  cases e.value.float? with
  | none => exact throw _
  | some x => exact pure x

theorem distribution (hscene : root.SingleScene) (here : Address) (schema : Schema) :
    Agrees ctx root [] (Resolution.distribution ctx root here schema)
      (Plain.distribution here schema) :=
  (distributionKind hscene here schema).bind fun kind =>
    (distributionNumber hscene here schema kind.firstName).bind fun _ =>
      (distributionNumber hscene here schema kind.secondName).bind fun _ => pure _

end Agrees

theorem Agrees.fresh {α : Type} {step : Resolution α} {p : Inquiry α}
    (h : Agrees ctx root [] step p) :
    (Resolution.perform step .empty).1 = p (Plain.field ctx root []) := by
  obtain ⟨m, found, hrun, -⟩ := h.agreesAt [] .empty Memo.Keeps.empty
  rw [hrun]

/-- A step that leaves sound findings behind if it starts with them, whatever it ends in. -/
def Preserves {α : Type} (ctx : Context) (root : Node) (step : Resolution α) : Prop :=
  ∀ m found, m.Keeps ctx root found [] →
    ∃ found', (Resolution.perform step m).2.Keeps ctx root found' []

theorem Agrees.preserves {α : Type} {step : Resolution α} {p : Inquiry α}
    (h : Agrees ctx root [] step p) : Preserves ctx root step := by
  intro m found hm
  obtain ⟨m', found', hrun, hm', -⟩ := h.agreesAt found m hm
  refine ⟨found', ?_⟩
  rw [hrun]
  exact hm'

namespace Preserves

theorem still {α : Type} {step : Resolution α} (h : ∀ m, (Resolution.perform step m).2 = m) :
    Preserves ctx root step := by
  intro m found hm
  refine ⟨found, ?_⟩
  rw [h m]
  exact hm

theorem bind {α β : Type} {step : Resolution α} {next : α → Resolution β}
    (hstep : Preserves ctx root step) (hnext : ∀ a, Preserves ctx root (next a)) :
    Preserves ctx root (step >>= next) := by
  intro m found hm
  obtain ⟨found1, hm1⟩ := hstep m found hm
  rw [Resolution.perform_bind]
  cases hresult : Resolution.perform step m with
  | mk result m1 =>
    rw [hresult] at hm1
    cases result with
    | error e => exact ⟨found1, hm1⟩
    | ok a => exact hnext a m1 found1 hm1

end Preserves
end CrowdScenario

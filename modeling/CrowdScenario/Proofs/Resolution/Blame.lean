import CrowdScenario.Proofs.Resolution.Steps

/-!
# Failures that blame a reference

A failure blames a reference if the reference is malformed, leads nowhere or comes back to a field
under way. What is done with an input, and what is done with a value, fails for other reasons
(`blameless_complete`, `blameless_writeValue`).
-/

namespace CrowdScenario

def CompileError.blamesReference : CompileError → Bool
  | unresolvedReference _ _ => true
  | malformedReference _ _ => true
  | cyclicReference _ => true
  | _ => false

def BlamesNone {α : Type} (result : Except CompileError α) : Prop :=
  ∀ e, result = .error e → e.blamesReference = false

namespace BlamesNone

theorem ok {α : Type} (a : α) : BlamesNone (.ok a) := nofun

theorem error {α : Type} {e : CompileError} (h : e.blamesReference = false) :
    BlamesNone (.error e : Except CompileError α) := by
  intro e' he
  cases he
  exact h

theorem map {α β : Type} {result : Except CompileError α} (f : α → β) (h : BlamesNone result) :
    BlamesNone (result.map f) := by
  cases result with
  | ok a => exact ok _
  | error e => exact error (h e rfl)

end BlamesNone

theorem blamesNone_readInput {α : Type} (path expected : String) (read : Input → Option α)
    (make : α → Value) (i : Input) : BlamesNone (readInput path expected read make i) := by
  unfold readInput
  cases read i with
  | some a => exact .ok _
  | none => exact .error rfl

theorem blamesNone_chooseVariant (variants : List Variant) (path : String) (i : Input) :
    BlamesNone (chooseVariant variants path i) := by
  unfold chooseVariant
  cases i.name? with
  | none => exact .error rfl
  | some name =>
    simp only
    split
    · exact .ok _
    · exact .error rfl

theorem blamesNone_coerce (kind : FieldKind) (path : String) (input? : Option Input) :
    BlamesNone (coerce kind path input?) := by
  unfold coerce
  split
  · exact .ok _
  · exact blamesNone_readInput _ _ _ _ _
  · exact .ok _
  · exact blamesNone_readInput _ _ _ _ _
  · exact .ok _
  · exact blamesNone_readInput _ _ _ _ _
  · exact .ok _
  · exact blamesNone_readInput _ _ _ _ _
  · exact .error rfl
  · exact blamesNone_chooseVariant _ _ _
  · exact .error rfl

theorem blamesNone_sceneFileOf (path : String) (input? : Option Input) :
    BlamesNone (sceneFileOf path input?) := by
  unfold sceneFileOf
  split
  · exact .error rfl
  · split
    · exact .ok _
    · exact .error rfl

namespace Resolution

def Blameless {α : Type} (step : Resolution α) : Prop := ∀ m, BlamesNone (perform step m).1

namespace Blameless

theorem pure {α : Type} (a : α) : Blameless (Pure.pure a) := fun _ => .ok a

theorem throw {α : Type} {e : CompileError} (h : e.blamesReference = false) :
    Blameless (MonadExcept.throw e : Resolution α) := fun _ => .error h

theorem memory : Blameless get := fun m => .ok m

theorem change (f : Memo → Memo) : Blameless (modify f) := fun _ => .ok ()

theorem ofExcept {α : Type} {result : Except CompileError α} (h : BlamesNone result) :
    Blameless (Resolution.ofExcept result) := by
  intro m
  rw [perform_ofExcept]
  exact h

theorem bind {α β : Type} {step : Resolution α} {next : α → Resolution β} (h : Blameless step)
    (hnext : ∀ a, Blameless (next a)) : Blameless (step >>= next) := by
  intro m
  have hstep := h m
  rw [perform_bind]
  cases hresult : perform step m with
  | mk result m' =>
    rw [hresult] at hstep
    cases result with
    | ok a => exact hnext a m'
    | error e => exact .error (hstep e rfl)

end Blameless

/-- The value of a field from its input. -/
def complete (ctx : Context) (id : FieldId) (kind : FieldKind) (input? : Option Input) :
    Resolution Value :=
  match kind with
  | .sceneFile => ofExcept (sceneFileOf id.path input?) >>= ingestScene ctx id
  | kind => ofExcept (coerce kind id.path input?)

theorem evaluate_eq (ctx : Context) (root : Node) (read : FieldId → Resolution Value) (n : Node)
    (id : FieldId) (f : Field) :
    evaluate ctx root read n id f =
      firstInput root read id.path (n.sources ctx.settings.strictReferences f) >>=
        complete ctx id f.kind := rfl

theorem blameless_ingestScene (ctx : Context) (id : FieldId) (file : String) :
    Blameless (ingestScene ctx id file) := by
  refine (Blameless.change _).bind fun _ => ?_
  split
  · exact .throw rfl
  · exact (Blameless.change _).bind fun _ => .pure _

theorem blameless_complete (ctx : Context) (id : FieldId) (kind : FieldKind)
    (input? : Option Input) : Blameless (complete ctx id kind input?) := by
  unfold complete
  split
  · exact (Blameless.ofExcept (blamesNone_sceneFileOf _ _)).bind fun file =>
      blameless_ingestScene ctx id file
  · exact .ofExcept (blamesNone_coerce _ _ _)

end Resolution

namespace Encoding

open Resolution

theorem blameless_require {α : Type} (path expected : String) (part : Value → Option α)
    (v : Value) : Blameless (require path expected part v) := by
  unfold require
  cases part v with
  | some a => exact .pure a
  | none => exact .throw rfl

theorem blameless_entries (ctx : Context) (owner : Section) (id : FieldId) (v : Value)
    (emission : Emission) : Blameless (entries ctx owner id v emission) := by
  cases emission with
  | skip => exact .pure _
  | leadingByte => exact .pure _
  | flag element => exact (blameless_require _ _ _ _).bind fun _ => .pure _
  | float element => exact (blameless_require _ _ _ _).bind fun _ => .pure _
  | seconds element =>
    refine (blameless_require _ _ _ _).bind fun x => ?_
    split
    · exact .pure _
    · exact .throw rfl
  | sceneFile element =>
    exact (blameless_require _ _ _ _).bind fun _ => Blameless.memory.bind fun _ => .pure _

theorem blameless_put (path : String) (e : Entry) (w : Writer) :
    Blameless ((put path e).run w) := by
  show Blameless (put path e w)
  unfold put
  split
  · exact .pure _
  · exact .throw rfl

theorem blameless_putAll (list : List (String × Entry)) (w : Writer) :
    Blameless ((putAll list).run w) := by
  induction list generalizing w with
  | nil => exact .pure _
  | cons p rest ih =>
    rw [putAll, StateT.run_bind]
    exact (blameless_put p.1 p.2 w).bind fun r => ih r.2

theorem blameless_writeValue (ctx : Context) (schema : Schema) (f : Field) (id : FieldId)
    (v : Value) (w : Writer) : Blameless ((writeValue ctx schema f id v).run w) := by
  unfold writeValue
  split
  · rw [StateT.run_bind, StateT.run_monadLift]
    exact ((blameless_require _ _ _ _).bind fun _ => .pure _).bind fun _ => .pure _
  · split
    · exact .throw rfl
    · rw [StateT.run_bind, StateT.run_monadLift]
      exact ((blameless_entries _ _ _ _ _).bind fun _ => .pure _).bind fun r =>
        blameless_putAll _ r.2

end Encoding
end CrowdScenario

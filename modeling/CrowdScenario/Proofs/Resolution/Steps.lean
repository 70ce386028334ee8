import CrowdScenario.Compilation

/-!
# Performing steps of resolution

What a step ends in and the memory it leaves behind, for each of the ways in which steps are put
together.
-/

namespace CrowdScenario
namespace Resolution

/-- What a step ends in and the memory it leaves behind. -/
def perform {α : Type} (step : Resolution α) (m : Memo) : Except CompileError α × Memo :=
  StateT.run (ExceptT.run step) m

theorem perform_pure {α : Type} (a : α) (m : Memo) : perform (pure a) m = (.ok a, m) := rfl

theorem perform_throw {α : Type} (e : CompileError) (m : Memo) :
    perform (throw e : Resolution α) m = (.error e, m) := rfl

theorem perform_get (m : Memo) : perform get m = (.ok m, m) := rfl

theorem perform_modify (change : Memo → Memo) (m : Memo) :
    perform (modify change) m = (.ok (), change m) := rfl

theorem perform_ofExcept {α : Type} (result : Except CompileError α) (m : Memo) :
    perform (ofExcept result) m = (result, m) := by
  cases result <;> rfl

theorem perform_bind {α β : Type} (step : Resolution α) (next : α → Resolution β) (m : Memo) :
    perform (step >>= next) m =
      match perform step m with
      | (.ok a, m') => perform (next a) m'
      | (.error e, m') => (.error e, m') := by
  show (ExceptT.bindCont next (perform step m).1) (perform step m).2 = _
  cases perform step m with
  | mk result m' => cases result <;> rfl

theorem perform_bind_ok {α β : Type} {step : Resolution α} {next : α → Resolution β} {m m' : Memo}
    {a : α} (h : perform step m = (.ok a, m')) : perform (step >>= next) m = perform (next a) m' := by
  rw [perform_bind, h]

theorem perform_bind_error {α β : Type} {step : Resolution α} {next : α → Resolution β}
    {m m' : Memo} {e : CompileError} (h : perform step m = (.error e, m')) :
    perform (step >>= next) m = (.error e, m') := by
  rw [perform_bind, h]

theorem perform_bind_eq_ok {α β : Type} {step : Resolution α} {next : α → Resolution β}
    {m m' : Memo} {b : β} :
    perform (step >>= next) m = (.ok b, m') ↔
      ∃ a m1, perform step m = (.ok a, m1) ∧ perform (next a) m1 = (.ok b, m') := by
  rw [perform_bind]
  cases perform step m with
  | mk result m1 =>
    cases result with
    | ok a =>
      constructor
      · exact fun h => ⟨a, m1, rfl, h⟩
      · rintro ⟨_, _, h, hnext⟩
        cases h
        exact hnext
    | error c =>
      constructor
      · intro h
        cases h
      · rintro ⟨_, _, h, -⟩
        cases h

theorem perform_bind_eq_error {α β : Type} {step : Resolution α}
    {next : α → Resolution β} {m m' : Memo} {e : CompileError} :
    perform (step >>= next) m = (.error e, m') ↔ perform step m = (.error e, m') ∨
      ∃ a m1, perform step m = (.ok a, m1) ∧ perform (next a) m1 = (.error e, m') := by
  rw [perform_bind]
  cases perform step m with
  | mk result m1 =>
    cases result with
    | ok a =>
      constructor
      · exact fun h => .inr ⟨a, m1, rfl, h⟩
      · rintro (h | ⟨_, _, h, hnext⟩)
        · cases h
        · cases h
          exact hnext
    | error c =>
      constructor
      · intro h
        cases h
        exact .inl rfl
      · rintro (h | ⟨_, _, h, -⟩)
        · cases h
          rfl
        · cases h

theorem perform_outcome {α : Type} (step : Resolution α) (m : Memo) :
    perform (outcome step) m = (.ok (perform step m).1, (perform step m).2) := rfl

theorem perform_whileUnderway_ok {id : FieldId} {step : Resolution Value} {m m' : Memo} {v : Value}
    (h : perform step (m.start id) = (.ok v, m')) :
    perform (whileUnderway id step) m = (.ok v, (m'.stop id).remember id v) := by
  rw [whileUnderway, perform_bind_ok (perform_modify _ m), perform_bind_ok (perform_outcome _ _), h,
    perform_bind_ok (perform_modify _ _)]
  rfl

theorem perform_whileUnderway_error {id : FieldId} {step : Resolution Value} {m m' : Memo}
    {e : CompileError} (h : perform step (m.start id) = (.error e, m')) :
    perform (whileUnderway id step) m = (.error e, m'.stop id) := by
  rw [whileUnderway, perform_bind_ok (perform_modify _ m), perform_bind_ok (perform_outcome _ _), h,
    perform_bind_ok (perform_modify _ _)]
  rfl

theorem perform_whileUnderway_eq_ok {id : FieldId} {step : Resolution Value} {m m' : Memo}
    {v : Value} (h : perform (whileUnderway id step) m = (.ok v, m')) :
    ∃ m1, perform step (m.start id) = (.ok v, m1) ∧ m' = (m1.stop id).remember id v := by
  cases hstep : perform step (m.start id) with
  | mk result m1 =>
    cases result with
    | error e =>
      rw [perform_whileUnderway_error hstep] at h
      cases h
    | ok v' =>
      rw [perform_whileUnderway_ok hstep] at h
      cases h
      exact ⟨m1, rfl, rfl⟩

theorem perform_whileUnderway_eq_error {id : FieldId} {step : Resolution Value} {m m' : Memo}
    {e : CompileError} (h : perform (whileUnderway id step) m = (.error e, m')) :
    ∃ m1, perform step (m.start id) = (.error e, m1) ∧ m' = m1.stop id := by
  cases hstep : perform step (m.start id) with
  | mk result m1 =>
    cases result with
    | error e' =>
      rw [perform_whileUnderway_error hstep] at h
      cases h
      exact ⟨m1, rfl, rfl⟩
    | ok v =>
      rw [perform_whileUnderway_ok hstep] at h
      cases h

end Resolution

end CrowdScenario

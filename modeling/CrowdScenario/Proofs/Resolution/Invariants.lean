import CrowdScenario.Proofs.Resolution.Blame

/-!
# Invariants of resolution

What memory keeps when a field is started and when it is completed, it keeps whatever is asked of a
tree. An `Invariant` says so of a property that may depend on the fields under way, and of a second
one that failures come to.
-/

namespace CrowdScenario
namespace Resolution

/-- A step that leaves memory with one property if it ends in a value and with another if it
fails. -/
structure Upholds {α : Type} (P Q : Memo → Prop) (step : Resolution α) : Prop where
  value : ∀ {m a m'}, P m → perform step m = (.ok a, m') → P m'
  failure : ∀ {m e m'}, P m → perform step m = (.error e, m') → Q m'

namespace Upholds

variable {α β : Type} {P Q : Memo → Prop}

theorem pure (a : α) : Upholds P Q (Pure.pure a : Resolution α) where
  value hm h := by
    cases h
    exact hm
  failure hm h := nomatch h

theorem memory : Upholds P Q (get : Resolution Memo) where
  value hm h := by
    cases h
    exact hm
  failure hm h := nomatch h

theorem still {step : Resolution α} (hweak : ∀ m, P m → Q m)
    (h : ∀ m, (perform step m).2 = m) : Upholds P Q step where
  value {m a m'} hm hstep := by
    have hsame : m' = m := by rw [← h m, hstep]
    rw [hsame]
    exact hm
  failure {m e m'} hm hstep := by
    have hsame : m' = m := by rw [← h m, hstep]
    rw [hsame]
    exact hweak m hm

theorem throw (hweak : ∀ m, P m → Q m) (e : CompileError) :
    Upholds P Q (MonadExcept.throw e : Resolution α) := still hweak fun _ => rfl

theorem bind {step : Resolution α} {next : α → Resolution β} (hstep : Upholds P Q step)
    (hnext : ∀ a, Upholds P Q (next a)) : Upholds P Q (step >>= next) where
  value {m b m'} hm h := by
    obtain ⟨a, m1, hfirst, hsecond⟩ := perform_bind_eq_ok.mp h
    exact (hnext a).value (hstep.value hm hfirst) hsecond
  failure {m e m'} hm h := by
    obtain hfirst | ⟨a, m1, hfirst, hsecond⟩ := perform_bind_eq_error.mp h
    · exact hstep.failure hm hfirst
    · exact (hnext a).failure (hstep.value hm hfirst) hsecond

/-- A property that failures come to as well holds at the end, whatever that is. -/
theorem after {step : Resolution α} (h : Upholds P P step) {m : Memo} (hm : P m) :
    P (perform step m).2 := by
  cases hrun : perform step m with
  | mk result m' =>
    cases result with
    | ok a => exact h.value hm hrun
    | error e => exact h.failure hm hrun

end Upholds

section
variable {P Q : Memo → Prop} {root : Node} {read : FieldId → Resolution Value}

theorem upholds_readTarget (hread : ∀ id, Upholds P Q (read id)) (t : Node.Target) :
    Upholds P Q (readTarget read t) := by
  refine (hread t.field).bind fun v => ?_
  cases t.side? with
  | none => exact .pure _
  | some name => exact Upholds.memory.bind fun m => .pure _

theorem upholds_follow (hweak : ∀ m, P m → Q m) (hread : ∀ id, Upholds P Q (read id))
    (expression path : String) : Upholds P Q (follow root read expression path) := by
  unfold follow
  split
  · exact .throw hweak _
  · split
    · exact .pure _
    · exact upholds_readTarget hread _

theorem upholds_firstInput (hweak : ∀ m, P m → Q m) (hread : ∀ id, Upholds P Q (read id))
    (path : String) (sources : List Source) : Upholds P Q (firstInput root read path sources) := by
  induction sources with
  | nil => exact .pure _
  | cons source rest ih =>
    cases source with
    | given i => exact .pure _
    | reference expression required =>
      refine (upholds_follow hweak hread expression path).bind fun v? => ?_
      cases v? with
      | some v => exact .pure _
      | none =>
        cases required with
        | true => exact .throw hweak _
        | false => exact ih

end

theorem perform_resolveAmong {ctx : Context} {root : Node} {free : List FieldId} {id : FieldId}
    {m m' : Memo} {result : Except CompileError Value}
    (h : perform (resolveAmong ctx root free id) m = (result, m')) :
    m' = m ∨ m.value? id = none ∧ id ∉ m.underway ∧ id ∈ free ∧ ∃ n f,
      root.field? id = some (n, f) ∧ perform (whileUnderway id
        (evaluate ctx root (resolveAmong ctx root (others free id)) n id f)) m = (result, m') := by
  rw [resolveAmong, perform_bind_ok (perform_get m)] at h
  cases hvalue : m.value? id with
  | some v =>
    rw [hvalue] at h
    cases h
    exact .inl rfl
  | none =>
    rw [hvalue] at h
    dsimp only at h
    split at h
    · cases h
      exact .inl rfl
    next hbusy =>
    split at h
    · next hfree =>
      split at h
      · cases h
        exact .inl rfl
      · next n f hfield => exact .inr ⟨rfl, hbusy, hfree, n, f, hfield, h⟩
    · cases h
      exact .inl rfl

/-- Properties of memory, given the fields under way, that are kept when a field is started and when
it is completed: one for as long as there is no failure, and one from then on. -/
structure Invariant (ctx : Context) (root : Node) (P Q : List FieldId → Memo → Prop) : Prop where
  weak : ∀ {busy m}, P busy m → Q busy m
  start : ∀ {busy m id n f}, root.field? id = some (n, f) → P busy m → m.value? id = none →
    id ∉ m.underway → P (id :: busy) (m.start id)
  stop : ∀ {busy m id}, Q (id :: busy) m → Q busy (m.stop id)
  value : ∀ {busy m m' id n f input? v}, root.field? id = some (n, f) → P (id :: busy) m →
    perform (complete ctx id f.kind input?) m = (.ok v, m') → P busy ((m'.stop id).remember id v)
  failure : ∀ {busy m m' id n f input? e}, root.field? id = some (n, f) → P (id :: busy) m →
    perform (complete ctx id f.kind input?) m = (.error e, m') → Q (id :: busy) m'

namespace Invariant

variable {ctx : Context} {root n : Node} {P Q : List FieldId → Memo → Prop} {busy : List FieldId}
  {id : FieldId} {f : Field} {m m' : Memo}

theorem whileUnderway_value {read : FieldId → Resolution Value} {v : Value}
    (h : Invariant ctx root P Q) (hfield : root.field? id = some (n, f))
    (hread : ∀ id', Upholds (P (id :: busy)) (Q (id :: busy)) (read id'))
    (hm : P (id :: busy) (m.start id))
    (hrun : perform (whileUnderway id (evaluate ctx root read n id f)) m = (.ok v, m')) :
    P busy m' := by
  obtain ⟨m1, hevaluate, rfl⟩ := perform_whileUnderway_eq_ok hrun
  have hinput : Upholds (P (id :: busy)) (Q (id :: busy)) (firstInput root read id.path
      (n.sources ctx.settings.strictReferences f)) :=
    upholds_firstInput (fun _ => h.weak) hread id.path _
  rw [evaluate_eq] at hevaluate
  obtain ⟨input?, m2, hgiven, hcomplete⟩ := perform_bind_eq_ok.mp hevaluate
  exact h.value hfield (hinput.value hm hgiven) hcomplete

theorem whileUnderway_failure {read : FieldId → Resolution Value} {e : CompileError}
    (h : Invariant ctx root P Q) (hfield : root.field? id = some (n, f))
    (hread : ∀ id', Upholds (P (id :: busy)) (Q (id :: busy)) (read id'))
    (hm : P (id :: busy) (m.start id))
    (hrun : perform (whileUnderway id (evaluate ctx root read n id f)) m = (.error e, m')) :
    Q busy m' := by
  obtain ⟨m1, hevaluate, rfl⟩ := perform_whileUnderway_eq_error hrun
  apply h.stop
  have hinput : Upholds (P (id :: busy)) (Q (id :: busy)) (firstInput root read id.path
      (n.sources ctx.settings.strictReferences f)) :=
    upholds_firstInput (fun _ => h.weak) hread id.path _
  rw [evaluate_eq] at hevaluate
  obtain hfails | ⟨input?, m2, hgiven, hcomplete⟩ := perform_bind_eq_error.mp hevaluate
  · exact hinput.failure hm hfails
  · exact h.failure hfield (hinput.value hm hgiven) hcomplete

theorem resolveAmong (h : Invariant ctx root P Q) (busy free : List FieldId) (id : FieldId) :
    Upholds (P busy) (Q busy) (resolveAmong ctx root free id) := by
  -- The induction is on the number of fields that may still be started.
  induction hn : free.length using Nat.strongRecOn generalizing busy free id with
  | _ size ih =>
    have hothers : id ∈ free → ∀ id', Upholds (P (id :: busy)) (Q (id :: busy))
        (Resolution.resolveAmong ctx root (others free id) id') := by
      intro hfree id'
      have hfewer := length_others_lt hfree
      rw [hn] at hfewer
      exact ih _ hfewer (id :: busy) (others free id) id' rfl
    constructor
    · intro m v m' hm hrun
      obtain rfl | ⟨hvalue, hbusy, hfree, n, f, hfield, hrun⟩ := perform_resolveAmong hrun
      · exact hm
      · have hstarted := h.start hfield hm hvalue hbusy
        exact h.whileUnderway_value hfield (hothers hfree) hstarted hrun
    · intro m e m' hm hrun
      obtain rfl | ⟨hvalue, hbusy, hfree, n, f, hfield, hrun⟩ := perform_resolveAmong hrun
      · exact h.weak hm
      · have hstarted := h.start hfield hm hvalue hbusy
        exact h.whileUnderway_failure hfield (hothers hfree) hstarted hrun

theorem resolveField (h : Invariant ctx root P Q) (busy : List FieldId) (id : FieldId) :
    Upholds (P busy) (Q busy) (resolveField ctx root id) := h.resolveAmong busy _ id

theorem resolve (h : Invariant ctx root P Q) (busy : List FieldId) (here : Address)
    (schema : Schema) (name : String) :
    Upholds (P busy) (Q busy) (resolve ctx root here schema name) := by
  unfold Resolution.resolve
  split
  · exact .throw (fun _ => h.weak) _
  · split
    · exact .throw (fun _ => h.weak) _
    · exact h.resolveField busy _

theorem lookup (h : Invariant ctx root P Q) (busy : List FieldId) (here : Address)
    (schema : Schema) (name : String) :
    Upholds (P busy) (Q busy) (lookup ctx root here schema name) := by
  unfold Resolution.lookup
  split
  · exact .pure _
  · exact upholds_readTarget (h.resolveField busy) _

theorem resolveReference (h : Invariant ctx root P Q) (busy : List FieldId) (expression : String) :
    Upholds (P busy) (Q busy) (resolveReference ctx root expression) :=
  upholds_follow (fun _ => h.weak) (h.resolveField busy) expression documentPath

theorem requireReference (h : Invariant ctx root P Q) (busy : List FieldId)
    (expression : String) :
    Upholds (P busy) (Q busy) (requireReference ctx root expression) := by
  refine (h.resolveReference busy expression).bind fun v? => ?_
  cases v? with
  | some v => exact .pure v
  | none => exact .throw (fun _ => h.weak) _

theorem distributionKind (h : Invariant ctx root P Q) (busy : List FieldId) (here : Address)
    (schema : Schema) :
    Upholds (P busy) (Q busy) (distributionKind ctx root here schema) := by
  refine (h.resolve busy here schema Schema.kindField).bind fun v => ?_
  dsimp only
  split
  · exact .pure _
  · exact .throw (fun _ => h.weak) _

theorem distributionNumber (h : Invariant ctx root P Q) (busy : List FieldId) (here : Address)
    (schema : Schema) (name : String) :
    Upholds (P busy) (Q busy) (distributionNumber ctx root here schema name) := by
  refine (h.resolve busy here schema name).bind fun v => ?_
  split
  · exact .pure _
  · exact .throw (fun _ => h.weak) _

theorem distribution (h : Invariant ctx root P Q) (busy : List FieldId) (here : Address)
    (schema : Schema) : Upholds (P busy) (Q busy) (distribution ctx root here schema) := by
  apply (h.distributionKind busy here schema).bind
  intro kind
  apply (h.distributionNumber busy here schema kind.firstName).bind
  intro first
  apply (h.distributionNumber busy here schema kind.secondName).bind
  intro second
  exact .pure _

end Invariant

end Resolution

end CrowdScenario

import CrowdScenario.Proofs.Resolution.Machine
import CrowdScenario.Proofs.Resolution.Paths

/-!
# Chains of references

A field that refers to another one of its kind has the value of the other, and so has the last of any
number of fields that refer to one another (`chain_delivers`). What was coerced to a kind stays as it
is when it is coerced again, and while a field waits for the one it refers to, the other resolves as
it would alone, unless it comes back to the field that waits.
-/

namespace CrowdScenario

open Resolution

def FieldKind.isCoerced : FieldKind → Bool
  | int => true
  | float => true
  | text => true
  | bool => true
  | choice _ => true
  | _ => false

theorem chooseVariant_again {variants : List Variant} {path path' : String} {i : Input} {v : Value}
    (h : chooseVariant variants path i = .ok v) :
    chooseVariant variants path' (.value v) = .ok v := by
  unfold chooseVariant at h
  split at h
  · cases h
  · next name _ =>
    cases hfound : variants.find? fun variant => variant.name = name with
    | none =>
      rw [hfound] at h
      cases h
    | some variant =>
      rw [hfound] at h
      cases h
      have hname : variant.name = name := by simpa using List.find?_some hfound
      rw [← hname] at hfound
      simp only [chooseVariant, Input.name?, hfound]

theorem coerce_again {kind : FieldKind} {path path' : String} {input? : Option Input} {v : Value}
    (hkind : kind.isCoerced = true) (h : coerce kind path input? = .ok v) :
    coerce kind path' (some (.value v)) = .ok v := by
  have hholds := holds_of_coerce h
  cases kind with
  | choice variants =>
    cases input? with
    | none => cases h
    | some i => exact chooseVariant_again h
  | int =>
    cases v with
    | int n => rfl
    | _ => cases hholds
  | float =>
    cases v with
    | float x => rfl
    | _ => cases hholds
  | text =>
    cases v with
    | text s => rfl
    | _ => cases hholds
  | bool =>
    cases v with
    | bool b => rfl
    | _ => cases hholds
  | _ => cases hkind

namespace Resolution

def Turns {α : Type} (result : Except CompileError α) : Prop :=
  ∃ path, result = .error (.cyclicReference path)

/-- Two memories with the same findings, while a target is resolved: in the first one a field waits
for the target that is not even started in the second. -/
structure Waits (id target : FieldId) (m m' : Memo) : Prop where
  values : m.values = m'.values
  sides : m.sides = m'.sides
  underway : ∀ x, x ∈ m.underway ↔ x = id ∨ x ∈ m'.underway
  idle : id ∉ m'.underway
  busy : target ∈ m'.underway
  unknown : m'.value? id = none
  pending : m'.value? target = none

namespace Waits

variable {id target x : FieldId} {m m' : Memo}

theorem value? (h : Waits id target m m') (x : FieldId) : m.value? x = m'.value? x := by
  rw [Memo.value?, h.values, Memo.value?]

theorem begin (hne : id ≠ target) (hidle : m.underway = []) (hid : m.value? id = none)
    (htarget : m.value? target = none) :
    Waits id target ((m.start id).start target) (m.start target) where
  values := rfl
  sides := rfl
  underway x := by simp only [Memo.start, List.mem_cons, or_left_comm]
  idle := by simpa [Memo.start, hidle] using hne
  busy := List.mem_cons_self
  unknown := hid
  pending := htarget

theorem start (h : Waits id target m m') (hx : x ≠ id) :
    Waits id target (m.start x) (m'.start x) where
  values := h.values
  sides := h.sides
  underway y := by simp only [Memo.start, List.mem_cons, h.underway y, or_left_comm]
  idle := List.not_mem_cons_of_ne_of_not_mem hx.symm h.idle
  busy := List.mem_cons_of_mem _ h.busy
  unknown := h.unknown
  pending := h.pending

theorem stop (h : Waits id target m m') (hid : x ≠ id) (htarget : x ≠ target) :
    Waits id target (m.stop x) (m'.stop x) where
  values := h.values
  sides := h.sides
  underway y := by
    simp only [Memo.stop, List.mem_filter, h.underway y, decide_eq_true_eq, or_and_right]
    refine or_congr_left (and_iff_left_of_imp ?_)
    rintro rfl
    exact hid.symm
  idle hmem := h.idle (List.mem_of_mem_filter hmem)
  busy := List.mem_filter.mpr ⟨h.busy, by simpa using htarget.symm⟩
  unknown := h.unknown
  pending := h.pending

theorem remember (h : Waits id target m m') (hid : x ≠ id) (htarget : x ≠ target) (v : Value) :
    Waits id target (m.remember x v) (m'.remember x v) where
  values := congrArg ((x, v) :: ·) h.values
  sides := h.sides
  underway := h.underway
  idle := h.idle
  busy := h.busy
  unknown := by rw [Evaluation.value?_remember, if_neg hid.symm, h.unknown]
  pending := by rw [Evaluation.value?_remember, if_neg htarget.symm, h.pending]

theorem note (i : Ingestion) (h : Waits id target m m') : Waits id target (m.note i) (m'.note i) :=
  { h with }

theorem keepSide (h : Waits id target m m') (here : Address) (name : String) (v : Value) :
    Waits id target (m.keepSide here name v) (m'.keepSide here name v) :=
  { h with sides := congrArg (((here, name), v) :: ·) h.sides }

end Waits

/-- A step behind a field that waits ends as it does without the field, or both come back to a field
that is under way. -/
def Shadows (id target : FieldId) {α : Type} (step step' : Resolution α) : Prop :=
  ∀ m m', Waits id target m m' →
    (perform step m).1 = (perform step' m').1 ∧
        Waits id target (perform step m).2 (perform step' m').2 ∨
      Turns (perform step m).1 ∧ Turns (perform step' m').1

namespace Shadows

variable {id target : FieldId}

theorem still {α : Type} {step : Resolution α} {result : Except CompileError α}
    (h : ∀ m, perform step m = (result, m)) : Shadows id target step step := by
  intro m m' hm
  rw [h m, h m']
  exact .inl ⟨rfl, hm⟩

theorem pure {α : Type} (a : α) : Shadows id target (Pure.pure a) (Pure.pure a) :=
  still (perform_pure a)

theorem throw {α : Type} (e : CompileError) :
    Shadows id target (MonadExcept.throw e : Resolution α) (MonadExcept.throw e) :=
  still (perform_throw e)

theorem ofExcept {α : Type} (result : Except CompileError α) :
    Shadows id target (Resolution.ofExcept result) (Resolution.ofExcept result) :=
  still (perform_ofExcept result)

theorem bind {α β : Type} {step step' : Resolution α} {next next' : α → Resolution β}
    (h : Shadows id target step step') (hnext : ∀ a, Shadows id target (next a) (next' a)) :
    Shadows id target (step >>= next) (step' >>= next') := by
  intro m m' hm
  have hstep := h m m' hm
  rw [perform_bind, perform_bind]
  rcases hresult : perform step m with ⟨result, m1⟩
  rcases hresult' : perform step' m' with ⟨result', m1'⟩
  rw [hresult, hresult'] at hstep
  rcases hstep with ⟨heq, hwaits⟩ | ⟨⟨path, herror⟩, path', herror'⟩
  · cases heq
    cases result with
    | ok a => exact hnext a m1 m1' hwaits
    | error e => exact .inl ⟨rfl, hwaits⟩
  · cases herror
    cases herror'
    exact .inr ⟨⟨path, rfl⟩, path', rfl⟩

theorem change {f : Memo → Memo}
    (h : ∀ m m', Waits id target m m' → Waits id target (f m) (f m')) :
    Shadows id target (modify f) (modify f) :=
  fun m m' hm => .inl ⟨rfl, h m m' hm⟩

end Shadows

section
variable {ctx : Context} {root : Node} {id target : FieldId} {read read' : FieldId → Resolution Value}

theorem shadows_readTarget (hread : ∀ x, Shadows id target (read x) (read' x)) (t : Node.Target) :
    Shadows id target (readTarget read t) (readTarget read' t) := by
  refine (hread t.field).bind fun v => ?_
  split
  · exact .pure _
  · intro m m' hm
    rw [perform_bind_ok (perform_get m), perform_bind_ok (perform_get m'), perform_pure,
      perform_pure]
    exact .inl ⟨by rw [Memo.side?, hm.sides, Memo.side?], hm⟩

theorem shadows_follow (hread : ∀ x, Shadows id target (read x) (read' x))
    (expression path : String) :
    Shadows id target (follow root read expression path) (follow root read' expression path) := by
  unfold follow
  split
  · exact .throw _
  · split
    · exact .pure _
    · exact shadows_readTarget hread _

theorem shadows_firstInput (hread : ∀ x, Shadows id target (read x) (read' x)) (path : String)
    (sources : List Source) :
    Shadows id target (firstInput root read path sources) (firstInput root read' path sources) := by
  induction sources with
  | nil => exact .pure _
  | cons source rest ih =>
    cases source with
    | given i => exact .pure _
    | reference expression required =>
      refine (shadows_follow hread expression path).bind fun v? => ?_
      cases v? with
      | some v => exact .pure _
      | none =>
        cases required with
        | true => exact .throw _
        | false => exact ih

theorem shadows_ingestScene (ctx : Context) (x : FieldId) (file : String) :
    Shadows id target (ingestScene ctx x file) (ingestScene ctx x file) := by
  refine (Shadows.change fun m m' => Waits.note _).bind fun _ => ?_
  split
  · exact .throw _
  · exact (Shadows.change fun m m' hm => (hm.keepSide _ _ _).keepSide _ _ _).bind fun _ => .pure _

theorem shadows_complete (ctx : Context) (x : FieldId) (kind : FieldKind) (input? : Option Input) :
    Shadows id target (complete ctx x kind input?) (complete ctx x kind input?) := by
  unfold complete
  split
  · exact (Shadows.ofExcept _).bind fun file => shadows_ingestScene ctx x file
  · exact .ofExcept _

theorem shadows_evaluate (hread : ∀ x, Shadows id target (read x) (read' x)) (n : Node)
    (x : FieldId) (f : Field) :
    Shadows id target (evaluate ctx root read n x f) (evaluate ctx root read' n x f) := by
  rw [evaluate_eq, evaluate_eq]
  exact (shadows_firstInput hread x.path _).bind fun input? => shadows_complete ctx x f.kind input?

theorem shadows_whileUnderway {step step' : Resolution Value} {x : FieldId} (hid : x ≠ id)
    (htarget : x ≠ target) (h : Shadows id target step step') :
    Shadows id target (whileUnderway x step) (whileUnderway x step') := by
  intro m m' hm
  have hstep := h _ _ (hm.start hid)
  rcases hresult : perform step (m.start x) with ⟨result, m1⟩
  rcases hresult' : perform step' (m'.start x) with ⟨result', m1'⟩
  rw [hresult, hresult'] at hstep
  rcases hstep with ⟨heq, hwaits⟩ | ⟨⟨path, herror⟩, path', herror'⟩
  · cases heq
    have hstopped := hwaits.stop hid htarget
    cases result with
    | ok v =>
      rw [perform_whileUnderway_ok hresult, perform_whileUnderway_ok hresult']
      exact .inl ⟨rfl, hstopped.remember hid htarget v⟩
    | error e =>
      rw [perform_whileUnderway_error hresult, perform_whileUnderway_error hresult']
      exact .inl ⟨rfl, hstopped⟩
  · cases herror
    cases herror'
    rw [perform_whileUnderway_error hresult, perform_whileUnderway_error hresult']
    exact .inr ⟨⟨path, rfl⟩, path', rfl⟩

end

/-! ### Fields that refer to fields -/

structure RefersTo (root : Node) (id target : FieldId) (n : Node) (f : Field) : Prop where
  declared : root.field? id = some (n, f)
  plain : f.kind.isNested = false
  written : Json.supplied? n.members f.name = some (.string ("ref:" ++ target.path))
  located : ∃ reference, Reference.parse? ("ref:" ++ target.path) = some reference ∧
    root.locate? [] reference = some ⟨target, none, []⟩

/-- A field takes its value from a reference to another field in the first place, be the reference that
of the author or of a default. -/
structure LeadsTo (ctx : Context) (root : Node) (id target : FieldId) (n : Node) (f : Field) :
    Prop where
  declared : root.field? id = some (n, f)
  first : ∃ expression required rest reference,
    n.sources ctx.settings.strictReferences f = .reference expression required :: rest ∧
      Reference.parse? expression = some reference ∧
        root.locate? [] reference = some ⟨target, none, []⟩

section
variable {ctx : Context} {root n : Node} {id target : FieldId} {f : Field}

theorem RefersTo.leadsTo (h : RefersTo root id target n f) (ctx : Context) :
    LeadsTo ctx root id target n f := by
  obtain ⟨reference, hparse, hlocate⟩ := h.located
  have href : Reference.isReference ("ref:" ++ target.path) = true :=
    Reference.isReference_iff.mpr ⟨_, Reference.toList_mark target.path⟩
  have hsources : n.sources ctx.settings.strictReferences f =
      .reference ("ref:" ++ target.path) ctx.settings.strictReferences ::
        ((n.fallback? f.name).toList.map Source.ofDefault ++
          f.default?.toList.map Source.ofDefault) := by
    simp [Node.sources, h.written, Source.ofAuthor, Input.reference?, href]
  exact ⟨h.declared, _, _, _, reference, hsources, hparse, hlocate⟩

theorem LeadsTo.evaluate_eq (h : LeadsTo ctx root id target n f)
    (read : FieldId → Resolution Value) :
    evaluate ctx root read n id f =
      read target >>= fun v => complete ctx id f.kind (some (.value v)) := by
  obtain ⟨expression, required, rest, reference, hsources, hparse, hlocate⟩ := h.first
  rw [Resolution.evaluate_eq, hsources, firstInput, follow, hparse]
  simp only [hlocate, readTarget, Value.select?, bind_assoc, pure_bind]

theorem others_comm (free : List FieldId) (x y : FieldId) :
    others (others free x) y = others (others free y) x := by
  simp only [others, List.filter_filter, Bool.and_comm]

theorem perform_resolveAmong_busy {free : List FieldId} {m : Memo} (hvalue : m.value? id = none)
    (hbusy : id ∈ m.underway) :
    perform (resolveAmong ctx root free id) m = (.error (.cyclicReference id.path), m) := by
  rw [resolveAmong, perform_bind_ok (perform_get m), hvalue]
  simp only [if_pos hbusy, perform_throw]

theorem perform_resolveAmong_free {free : List FieldId} {m : Memo} (hvalue : m.value? id = none)
    (hbusy : id ∉ m.underway) (hfree : id ∈ free) (hfield : root.field? id = some (n, f)) :
    perform (resolveAmong ctx root free id) m = perform (whileUnderway id
      (evaluate ctx root (resolveAmong ctx root (others free id)) n id f)) m := by
  rw [resolveAmong, perform_bind_ok (perform_get m), hvalue]
  simp only [if_neg hbusy, dif_pos hfree, hfield]

/-- While a field waits for another, the other and all that it needs resolve as they do without the
field. Where the field itself is needed, it is cyclic at once, and without waiting it is so by way of
the other. -/
theorem shadows_resolveAmong (h : LeadsTo ctx root id target n f) (free : List FieldId)
    (hfree : id ∈ free) (x : FieldId) :
    Shadows id target (resolveAmong ctx root (others free id) x) (resolveAmong ctx root free x) := by
  induction hn : free.length using Nat.strongRecOn generalizing free x with
  | _ size ih =>
    intro m m' hm
    by_cases hid : x = id
    · subst hid
      have hwaiting : x ∈ m.underway := (hm.underway x).mpr (.inl rfl)
      have htarget : perform (resolveAmong ctx root (others free x) target) (m'.start x) =
          (.error (.cyclicReference target.path), m'.start x) :=
        perform_resolveAmong_busy hm.pending (List.mem_cons_of_mem _ hm.busy)
      have hevaluate : perform (evaluate ctx root (resolveAmong ctx root (others free x)) n x f)
          (m'.start x) = (.error (.cyclicReference target.path), m'.start x) := by
        rw [h.evaluate_eq]
        exact perform_bind_error htarget
      rw [perform_resolveAmong_busy ((hm.value? x).trans hm.unknown) hwaiting,
        perform_resolveAmong_free hm.unknown hm.idle hfree h.declared,
        perform_whileUnderway_error hevaluate]
      exact .inr ⟨⟨_, rfl⟩, _, rfl⟩
    · rw [resolveAmong, resolveAmong, perform_bind_ok (perform_get m),
        perform_bind_ok (perform_get m'), hm.value? x]
      cases hvalue : m'.value? x with
      | some v => exact .inl ⟨rfl, hm⟩
      | none =>
        have hunderway : x ∈ m.underway ↔ x ∈ m'.underway := by simp [hm.underway x, hid]
        have hothers : x ∈ others free id ↔ x ∈ free := by simp [others, hid]
        simp only [hunderway]
        by_cases hbusy : x ∈ m'.underway
        · rw [if_pos hbusy, if_pos hbusy]
          exact .inl ⟨rfl, hm⟩
        rw [if_neg hbusy, if_neg hbusy]
        by_cases hx : x ∈ free
        · rw [dif_pos (hothers.mpr hx), dif_pos hx]
          cases root.field? x with
          | none => exact .inl ⟨rfl, hm⟩
          | some p =>
            have htarget : x ≠ target := fun heq => hbusy (heq ▸ hm.busy)
            have hstays : id ∈ others free x := by simpa [others, hfree] using Ne.symm hid
            have hlt := length_others_lt hx
            rw [hn] at hlt
            rw [others_comm]
            exact shadows_whileUnderway hid htarget
              (shadows_evaluate (fun y => ih _ hlt (others free x) hstays y rfl) p.1 x p.2) m m' hm
        · rw [dif_neg (mt hothers.mp hx), dif_neg hx]
          exact .inl ⟨rfl, hm⟩

end

section
variable {ctx : Context} {root n : Node} {id : FieldId} {f : Field} {m m' : Memo}

theorem perform_whileUnderway_outcome (step : Resolution Value) :
    (perform (whileUnderway id step) m).1 = (perform step (m.start id)).1 := by
  rcases hstep : perform step (m.start id) with ⟨_ | v, m'⟩
  · rw [perform_whileUnderway_error hstep]
  · rw [perform_whileUnderway_ok hstep]

theorem complete_of_isCoerced (hkind : f.kind.isCoerced = true) (input? : Option Input) :
    complete ctx id f.kind input? = ofExcept (coerce f.kind id.path input?) := by
  cases hf : f.kind with
  | sceneFile =>
    rw [hf] at hkind
    cases hkind
  | _ => rfl

theorem coerced_of_evaluate {read : FieldId → Resolution Value} {v : Value}
    (hkind : f.kind.isCoerced = true)
    (h : perform (evaluate ctx root read n id f) m = (.ok v, m')) :
    ∃ input?, coerce f.kind id.path input? = .ok v := by
  rw [evaluate_eq] at h
  obtain ⟨input?, m1, -, hcomplete⟩ := perform_bind_eq_ok.mp h
  rw [complete_of_isCoerced hkind, perform_ofExcept] at hcomplete
  exact ⟨input?, congrArg Prod.fst hcomplete⟩

end

def Tallies {α : Type} (result result' : Except CompileError α) : Prop :=
  result = result' ∨ Turns result ∧ Turns result'

theorem Tallies.trans {α : Type} {a b c : Except CompileError α} (h : Tallies a b)
    (h' : Tallies b c) : Tallies a c := by
  rcases h with rfl | ⟨ha, hb⟩
  · exact h'
  · rcases h' with rfl | ⟨-, hc⟩
    · exact .inr ⟨ha, hb⟩
    · exact .inr ⟨ha, hc⟩

theorem Tallies.bind {α β : Type} {a b : Except CompileError α} (h : Tallies a b)
    (next : α → Except CompileError β) : Tallies (a.bind next) (b.bind next) := by
  rcases h with rfl | ⟨⟨path, rfl⟩, path', rfl⟩
  · exact .inl rfl
  · exact .inr ⟨⟨path, rfl⟩, path', rfl⟩

section
variable {registry : Registry} {ctx : Context} {root n n' : Node} {id target : FieldId}
  {f f' : Field}

section
variable {m : Memo}

theorem perform_resolveAmong_known {free : List FieldId} {v : Value} (h : m.value? id = some v) :
    perform (resolveAmong ctx root free id) m = (.ok v, m) := by
  rw [resolveAmong, perform_bind_ok (perform_get m), h]
  rfl

theorem perform_resolveField (hid : id ∈ root.scalars []) (hfield : root.field? id = some (n, f))
    (hidle : m.underway = []) (hvalue : m.value? id = none) :
    (perform (resolveField ctx root id) m).1 = (perform (evaluate ctx root
      (resolveAmong ctx root (others (root.scalars []) id)) n id f) (m.start id)).1 := by
  have hfree : id ∉ m.underway := by
    rw [hidle]
    exact List.not_mem_nil
  rw [resolveField, perform_resolveAmong_free hvalue hfree hid hfield,
    perform_whileUnderway_outcome]

theorem perform_leadsTo (h : LeadsTo ctx root id target n f) (hkind : f.kind.isCoerced = true)
    (hid : id ∈ root.scalars []) (hidle : m.underway = []) (hvalue : m.value? id = none) :
    (perform (resolveField ctx root id) m).1 =
      (perform (resolveAmong ctx root (others (root.scalars []) id) target) (m.start id)).1.bind
        fun v => coerce f.kind id.path (some (.value v)) := by
  rw [perform_resolveField hid h.declared hidle hvalue, h.evaluate_eq, perform_bind]
  rcases perform (resolveAmong ctx root (others (root.scalars []) id) target) (m.start id) with
    ⟨_ | v, m'⟩
  · rfl
  · simp only [complete_of_isCoerced hkind, perform_ofExcept]
    rfl

/-- A field that refers to another ends as the coercion of what the other ends with. -/
theorem LeadsTo.tallies (hbuilt : root.Built registry) (h : LeadsTo ctx root id target n f)
    (hplain : f.kind.isNested = false) (hkind : f.kind.isCoerced = true)
    (htarget : root.field? target = some (n', f')) (hplain' : f'.kind.isNested = false)
    (hidle : m.underway = []) (hvalue : m.value? id = none) :
    Tallies (perform (resolveField ctx root id) m).1
      ((perform (resolveField ctx root target) m).1.bind fun v =>
        coerce f.kind id.path (some (.value v))) := by
  have hid : id ∈ root.scalars [] := hbuilt.mem_scalars_iff.mpr ⟨n, f, h.declared, hplain⟩
  have hmem : target ∈ root.scalars [] := hbuilt.mem_scalars_iff.mpr ⟨n', f', htarget, hplain'⟩
  have hpassed := perform_leadsTo h hkind hid hidle hvalue
  by_cases hne : id = target
  · subst hne
    have hbusy : perform (resolveAmong ctx root (others (root.scalars []) id) id) (m.start id) =
        (.error (.cyclicReference id.path), m.start id) :=
      perform_resolveAmong_busy hvalue List.mem_cons_self
    rw [hbusy] at hpassed
    rw [hpassed]
    exact .inl rfl
  rw [hpassed]
  refine Tallies.bind ?_ _
  cases hknown : m.value? target with
  | some v =>
    have hasked : perform (resolveAmong ctx root (others (root.scalars []) id) target)
        (m.start id) = (.ok v, m.start id) := perform_resolveAmong_known hknown
    rw [hasked, resolveField, perform_resolveAmong_known hknown]
    exact .inl rfl
  | none =>
    have hwaiting : id ∈ others (root.scalars []) target := by simpa [others, hid] using hne
    have hasked : perform (resolveAmong ctx root (others (root.scalars []) id) target)
        (m.start id) = _ :=
      perform_resolveAmong_free hknown (by simpa [Memo.start, hidle] using Ne.symm hne)
        (by simpa [others, hmem] using Ne.symm hne) htarget
    rw [hasked, perform_resolveField hmem htarget hidle hknown, perform_whileUnderway_outcome,
      others_comm]
    rcases shadows_evaluate (shadows_resolveAmong h _ hwaiting) n' target f' _ _
      (Waits.begin hne hidle hvalue hknown) with ⟨heq, -⟩ | hturn
    · exact .inl heq
    · exact .inr hturn

end

theorem tallies_of_refersTo (hbuilt : root.Built registry) (h : RefersTo root id target n f)
    (htarget : root.field? target = some (n', f')) (hkind : f.kind.isCoerced = true)
    (hsame : f'.kind = f.kind) :
    Tallies (perform (resolveField ctx root id) .empty).1
      (perform (resolveField ctx root target) .empty).1 := by
  have hplain' : f'.kind.isNested = false := by rw [hsame, h.plain]
  have hmem : target ∈ root.scalars [] := hbuilt.mem_scalars_iff.mpr ⟨n', f', htarget, hplain'⟩
  have hother : perform (resolveField ctx root target) .empty = _ :=
    perform_resolveAmong_free rfl List.not_mem_nil hmem htarget
  have htallies := (h.leadsTo ctx).tallies hbuilt h.plain hkind htarget hplain' (m := .empty) rfl rfl
  refine htallies.trans (.inl ?_)
  -- The value of the target is the value of the field.
  rcases hrun : perform (resolveField ctx root target) .empty with ⟨_ | v, m⟩
  · rfl
  · rw [hother] at hrun
    obtain ⟨m1, hevaluate, -⟩ := perform_whileUnderway_eq_ok hrun
    obtain ⟨input?, hcoerce⟩ := coerced_of_evaluate (hsame ▸ hkind) hevaluate
    rw [hsame] at hcoerce
    exact coerce_again hkind hcoerce

end
end Resolution

/-! ### Chains -/

/-- Fields of one kind, of which each but the first refers to the one before it. -/
structure Node.Chain (root : Node) (kind : FieldKind) (length : Nat) (link : Nat → FieldId) :
    Prop where
  declared : ∀ i ≤ length, ∃ n f, root.field? (link i) = some (n, f) ∧ f.kind = kind
  written : ∀ i < length, ∀ n f, root.field? (link (i + 1)) = some (n, f) →
    Json.supplied? n.members f.name = some (.string ("ref:" ++ (link i).path))
  fits : ∀ i < length, Address.Fits ((link i).owner ++ [(link i).name])

section
variable {registry : Registry} {members : Json.Members} {root n n' : Node} {id target : FieldId}
  {f f' : Field} {kind : FieldKind} {length : Nat} {link : Nat → FieldId}

theorem located_of_field (hroot : Node.ofDescription registry members = .ok root)
    (htarget : root.field? target = some (n, f)) (hplain : f.kind.isNested = false)
    (hfits : Address.Fits (target.owner ++ [target.name])) :
    ∃ reference, Reference.parse? ("ref:" ++ target.path) = some reference ∧
      root.locate? [] reference = some ⟨target, none, []⟩ := by
  obtain ⟨hn, hf⟩ := Node.field?_eq_some.mp htarget
  have hchild : n.child? target.name = none :=
    Node.Denotes.child?_eq_none hroot hn (.field hf hplain)
  refine ⟨Reference.ofAddress (target.owner ++ [target.name]), ?_, ?_⟩
  · rw [FieldId.path_eq]
    exact Reference.parse?_ofAddress (List.concat_ne_nil _ _) hfits
  · have hsplit : Reference.ofAddress (target.owner ++ [target.name]) =
        Reference.ofAddress target.owner ++ [.field target.name] := by
      simp [Reference.ofAddress]
    rw [hsplit, Node.locate?_ofAddress hn, Node.locate?, hchild, List.nil_append]
    simp [Node.target?, hf, hplain]

theorem FieldKind.isNested_of_isCoerced (h : kind.isCoerced = true) : kind.isNested = false := by
  cases kind with
  | nested schema => cases h
  | distribution slot => cases h
  | _ => rfl

theorem Node.Chain.tallies (hroot : Node.ofDescription registry members = .ok root)
    (hkind : kind.isCoerced = true) (hchain : root.Chain kind length link) (ctx : Context)
    {i : Nat} (hi : i ≤ length) :
    Tallies (perform (resolveField ctx root (link i)) .empty).1
      (perform (resolveField ctx root (link 0)) .empty).1 := by
  induction i with
  | zero => exact .inl rfl
  | succ i ih =>
    obtain ⟨n, f, hfield, rfl⟩ := hchain.declared (i + 1) hi
    obtain ⟨n', f', hfield', hsame⟩ := hchain.declared i (Nat.le_of_succ_le hi)
    have hplain := FieldKind.isNested_of_isCoerced hkind
    have hlocated := located_of_field hroot hfield' (by rw [hsame, hplain]) (hchain.fits i hi)
    have hrefers : RefersTo root (link (i + 1)) (link i) n f :=
      ⟨hfield, hplain, hchain.written i hi n f hfield, hlocated⟩
    have hlink : Tallies (perform (resolveField ctx root (link (i + 1))) .empty).1
        (perform (resolveField ctx root (link i)) .empty).1 :=
      tallies_of_refersTo (Node.built_ofDescription hroot) hrefers hfield' hkind hsame
    exact hlink.trans (ih (Nat.le_of_succ_le hi))

theorem resolve_of_field? (ctx : Context) (hfield : root.field? id = some (n', f))
    (hn : root.at? id.owner = some n) (hplain : f.kind.isNested = false) :
    resolve ctx root id.owner n.schema id.name = resolveField ctx root id := by
  obtain ⟨hn', hf⟩ := Node.field?_eq_some.mp hfield
  rw [hn] at hn'
  cases hn'
  obtain ⟨hmem, hname⟩ := Schema.mem_of_field? hf
  rw [← hname, resolve_of_mem ctx id.owner hmem hplain, hname]

/-- However long a chain of fields is that refer to one another, and wherever the fields are, the
last one resolves exactly if the first one does, and to the same value. If they fail they fail alike,
except that different fields may be said to come back to themselves. -/
theorem chain_delivers (hroot : Node.ofDescription registry members = .ok root)
    (hkind : kind.isCoerced = true) (hchain : root.Chain kind length link) (ctx : Context)
    {first last : Node} (hfirst : root.at? (link 0).owner = some first)
    (hlast : root.at? (link length).owner = some last) :
    (∀ v, (perform (resolve ctx root (link length).owner last.schema (link length).name)
          .empty).1 = .ok v ↔
        (perform (resolve ctx root (link 0).owner first.schema (link 0).name) .empty).1 = .ok v) ∧
      ∀ e, (∀ path, e ≠ .cyclicReference path) →
        ((perform (resolve ctx root (link length).owner last.schema (link length).name)
            .empty).1 = .error e ↔
          (perform (resolve ctx root (link 0).owner first.schema (link 0).name) .empty).1 =
            .error e) := by
  obtain ⟨n, f, hfield, hsame⟩ := hchain.declared length le_rfl
  obtain ⟨n', f', hfield', hsame'⟩ := hchain.declared 0 (Nat.zero_le length)
  have hplain := FieldKind.isNested_of_isCoerced hkind
  rw [resolve_of_field? ctx hfield hlast (by rw [hsame, hplain]),
    resolve_of_field? ctx hfield' hfirst (by rw [hsame', hplain])]
  rcases hchain.tallies hroot hkind ctx le_rfl with heq | ⟨⟨path, hturn⟩, path', hturn'⟩
  · rw [heq]
    exact ⟨fun v => Iff.rfl, fun e _ => Iff.rfl⟩
  · rw [hturn, hturn']
    refine ⟨fun v => ⟨nofun, nofun⟩, fun e he => ⟨?_, ?_⟩⟩
    · rintro h
      cases h
      exact absurd rfl (he path)
    · rintro h
      cases h
      exact absurd rfl (he path')

end

namespace Handed

def time : Json.Members := [("end_time", .string "inf"), ("tick", .string "ref:time.end_time")]

def spawn : Json.Members := [("rate", .string "ref:time.tick")]

/-- Arrivals take as long as the ticks, and these as long as all the time, which is a text. -/
def members : Json.Members := [("spawn", .object spawn), ("time", .object time)]

def tree : Node := ⟨.root, none, members,
  [("time", ⟨.time, none, time, []⟩), ("spawn", ⟨.spawn, none, spawn, []⟩)]⟩

def link : Nat → FieldId
  | 0 => ⟨["time"], "end_time"⟩
  | 1 => ⟨["time"], "tick"⟩
  | _ => ⟨["spawn"], "rate"⟩

theorem chain : tree.Chain .float 2 link where
  declared i _ := match i with
    | 0 => ⟨_, _, rfl, rfl⟩
    | 1 => ⟨_, _, rfl, rfl⟩
    | _ + 2 => ⟨_, _, rfl, rfl⟩
  written i hi n f hfield := by
    match i with
    | 0 =>
      cases hfield
      rfl
    | 1 =>
      cases hfield
      rfl
  fits i hi := by
    unfold Address.Fits
    match i with
    | 0 => decide
    | 1 => decide

end Handed

open Handed in
theorem chain_delivers_time :
    Node.ofDescription .standard members = .ok tree ∧ tree.Chain .float 2 link ∧
      (perform (resolve ⟨.standard, none, fun _ => .ok []⟩ tree ["spawn"] .spawn "rate") .empty).1 =
        .ok (.float (.infinity false)) := by
  have hroot : Node.ofDescription .standard members = .ok tree := by cbv
  have hchain : tree.Chain .float 2 link := chain
  have hfirst : (perform (resolve ⟨.standard, none, fun _ => .ok []⟩ tree ["time"] .time "end_time")
      .empty).1 = .ok (.float (.infinity false)) := by cbv
  refine ⟨hroot, hchain, ?_⟩
  obtain ⟨hdelivers, -⟩ := chain_delivers hroot rfl hchain ⟨.standard, none, fun _ => .ok []⟩
    (show tree.at? ["time"] = some ⟨.time, none, time, []⟩ from rfl)
    (show tree.at? ["spawn"] = some ⟨.spawn, none, spawn, []⟩ from rfl)
  exact (hdelivers _).mpr hfirst

end CrowdScenario

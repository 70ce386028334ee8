import CrowdScenario.Proofs.Resolution.Blame
import CrowdScenario.Proofs.Resolution.Outside

/-!
# Values of the kind of their field

A value has the kind of its field, wherever its input came from: coercion makes no other, and so
memory has no other. A field without a value fails for one of a few reasons, which name the field
(`respects_resolveAmong`).
-/

namespace CrowdScenario

def FieldKind.holds : FieldKind → Value → Bool
  | .int, .int _ => true
  | .float, .float _ => true
  | .text, .text _ => true
  | .bool, .bool _ => true
  | .choice variants, .choice name code => ⟨name, code⟩ ∈ variants
  | .sceneFile, .text _ => true
  | _, _ => false

def FieldKind.needsInput : FieldKind → Bool
  | choice _ => true
  | sceneFile => true
  | _ => false

/-- Whether a field fails without an input from its author, or from what it refers to. -/
def Field.bare (f : Field) : Bool := f.kind.needsInput && (f.default?.bind Default.literal?).isNone

def Input.readings : List String :=
  ["integer", "number", "string", "boolean", "enum name", "scene file path"]

theorem readInput_eq_ok {α : Type} {path expected : String} {read : Input → Option α}
    {make : α → Value} {i : Input} {v : Value} (h : readInput path expected read make i = .ok v) :
    ∃ a, v = make a := by
  unfold readInput at h
  split at h
  · next a _ =>
    cases h
    exact ⟨a, rfl⟩
  · cases h

theorem chooseVariant_eq_ok {variants : List Variant} {path : String} {i : Input} {v : Value}
    (h : chooseVariant variants path i = .ok v) :
    ∃ variant ∈ variants, v = .choice variant.name variant.code := by
  unfold chooseVariant at h
  split at h
  · cases h
  · split at h
    · next variant hfound =>
      cases h
      exact ⟨variant, List.mem_of_find?_eq_some hfound, rfl⟩
    · cases h

theorem holds_of_coerce {kind : FieldKind} {path : String} {input? : Option Input} {v : Value}
    (h : coerce kind path input? = .ok v) : kind.holds v = true := by
  unfold coerce at h
  split at h
  · cases h
    rfl
  · obtain ⟨n, rfl⟩ := readInput_eq_ok h
    rfl
  · cases h
    rfl
  · obtain ⟨x, rfl⟩ := readInput_eq_ok h
    rfl
  · cases h
    rfl
  · obtain ⟨s, rfl⟩ := readInput_eq_ok h
    rfl
  · cases h
    rfl
  · obtain ⟨b, rfl⟩ := readInput_eq_ok h
    rfl
  · cases h
  · obtain ⟨variant, hmem, rfl⟩ := chooseVariant_eq_ok h
    exact decide_eq_true hmem
  · cases h

namespace Node

/-- The failures that resolving a field of a tree may end in. A name is unknown only to a choice, and
only a field that needs an input is missing one. -/
def Admits (root : Node) : CompileError → Prop
  | .unknownSectionType _ _ => False
  | .unknownEnumValue _ path => ∃ id n f variants, root.field? id = some (n, f) ∧
      f.kind = .choice variants ∧ path = id.path
  | .missingField path => ∃ id n f, root.field? id = some (n, f) ∧ f.bare = true ∧ path = id.path
  | .invalidValue _ expected _ => expected ∈ Input.readings
  | .valueOutOfRange _ _ _ => False
  | .encode _ _ => False
  | _ => True

variable {root n : Node} {id : FieldId} {f : Field}

theorem admits_of_readInput {α : Type} {path expected : String} {read : Input → Option α}
    {make : α → Value} {i : Input} {e : CompileError} (hexpected : expected ∈ Input.readings)
    (h : readInput path expected read make i = .error e) : root.Admits e := by
  unfold readInput at h
  split at h
  · cases h
  · cases h
    exact hexpected

theorem admits_of_chooseVariant {variants : List Variant} {i : Input} {e : CompileError}
    (hfield : root.field? id = some (n, f)) (hkind : f.kind = .choice variants)
    (h : chooseVariant variants id.path i = .error e) : root.Admits e := by
  unfold chooseVariant at h
  split at h
  · cases h
    show "enum name" ∈ Input.readings
    decide
  · split at h
    · cases h
    · cases h
      exact ⟨id, n, f, variants, hfield, hkind, rfl⟩

theorem admits_missing (hfield : root.field? id = some (n, f)) (hneeds : f.kind.needsInput = true)
    (hnone : f.default?.bind Default.literal? = none) : root.Admits (.missingField id.path) := by
  refine ⟨id, n, f, hfield, ?_, rfl⟩
  rw [Field.bare, hneeds, hnone]
  rfl

theorem admits_of_coerce {input? : Option Input} {e : CompileError}
    (hfield : root.field? id = some (n, f)) (hplain : f.kind.isNested = false)
    (hscene : f.kind ≠ .sceneFile)
    (hnone : input? = none → f.default?.bind Default.literal? = none)
    (h : coerce f.kind id.path input? = .error e) : root.Admits e := by
  cases hkind : f.kind with
  | int =>
    rw [hkind] at h
    cases input? with
    | none => cases h
    | some i => exact admits_of_readInput (by decide) h
  | float =>
    rw [hkind] at h
    cases input? with
    | none => cases h
    | some i => exact admits_of_readInput (by decide) h
  | text =>
    rw [hkind] at h
    cases input? with
    | none => cases h
    | some i => exact admits_of_readInput (by decide) h
  | bool =>
    rw [hkind] at h
    cases input? with
    | none => cases h
    | some i => exact admits_of_readInput (by decide) h
  | choice variants =>
    rw [hkind] at h
    cases input? with
    | none =>
      cases h
      refine admits_missing hfield ?_ (hnone rfl)
      rw [hkind]
      rfl
    | some i => exact admits_of_chooseVariant hfield hkind h
  | nested schema =>
    rw [hkind] at hplain
    cases hplain
  | distribution slot =>
    rw [hkind] at hplain
    cases hplain
  | sceneFile => exact absurd hkind hscene

theorem admits_of_sceneFileOf {input? : Option Input} {e : CompileError}
    (hfield : root.field? id = some (n, f)) (hkind : f.kind = .sceneFile)
    (hnone : input? = none → f.default?.bind Default.literal? = none)
    (h : sceneFileOf id.path input? = .error e) : root.Admits e := by
  cases input? with
  | none =>
    cases h
    refine admits_missing hfield ?_ (hnone rfl)
    rw [hkind]
    rfl
  | some i =>
    simp only [sceneFileOf] at h
    split at h
    · cases h
    · cases h
      show "scene file path" ∈ Input.readings
      decide

end Node

/-! ### Steps that respect kinds -/

def Memo.Kinded (root : Node) (m : Memo) : Prop :=
  ∀ p ∈ m.values, ∀ n f, root.field? p.1 = some (n, f) → f.kind.holds p.2 = true

theorem Memo.Kinded.empty (root : Node) : Memo.Kinded root .empty := nofun

theorem Memo.Kinded.of_eq {root : Node} {m m' : Memo} (h : m.Kinded root)
    (hvalues : m'.values = m.values) : m'.Kinded root := by
  intro p hp
  rw [hvalues] at hp
  exact h p hp

theorem Memo.Kinded.remember {root : Node} {m : Memo} {id : FieldId} {v : Value}
    (h : m.Kinded root) (hv : ∀ n f, root.field? id = some (n, f) → f.kind.holds v = true) :
    (m.remember id v).Kinded root := by
  intro p hp
  rcases List.mem_cons.mp hp with rfl | hp
  · exact hv
  · exact h p hp

inductive EndsIn {α : Type} (good : α → Prop) (bad : CompileError → Prop) :
    Except CompileError α → Prop
  | ok {a : α} (h : good a) : EndsIn good bad (.ok a)
  | error {e : CompileError} (h : bad e) : EndsIn good bad (.error e)

namespace EndsIn

variable {α : Type} {good : α → Prop} {bad : CompileError → Prop}

theorem of_result {result : Except CompileError α} (hok : ∀ a, result = .ok a → good a)
    (herror : ∀ e, result = .error e → bad e) : EndsIn good bad result := by
  cases result with
  | ok a => exact .ok (hok a rfl)
  | error e => exact .error (herror e rfl)

theorem good_of_ok {a : α} (h : EndsIn good bad (.ok a)) : good a := by
  cases h with
  | ok h => exact h

theorem bad_of_error {e : CompileError} (h : EndsIn good bad (.error e)) : bad e := by
  cases h with
  | error h => exact h

end EndsIn

namespace Resolution

def Respects {α : Type} (root : Node) (good : α → Prop) (bad : CompileError → Prop)
    (step : Resolution α) : Prop :=
  ∀ m : Memo, m.Kinded root → EndsIn good bad (perform step m).1 ∧ (perform step m).2.Kinded root

namespace Respects

variable {α β : Type} {root : Node} {good : α → Prop} {bad : CompileError → Prop}

theorem ofExcept {result : Except CompileError α} (h : EndsIn good bad result) :
    Respects root good bad (Resolution.ofExcept result) := by
  intro m hm
  rw [perform_ofExcept]
  exact ⟨h, hm⟩

theorem pure {a : α} (h : good a) : Respects root good bad (Pure.pure a : Resolution α) :=
  fun _ hm => ⟨.ok h, hm⟩

theorem throw {e : CompileError} (h : bad e) :
    Respects root good bad (MonadExcept.throw e : Resolution α) := fun _ hm => ⟨.error h, hm⟩

theorem still {step : Resolution α} (h : ∀ m, (perform step m).2 = m) :
    Respects root (fun _ => True) (fun _ => True) step := by
  intro m hm
  refine ⟨.of_result (fun _ _ => trivial) fun _ _ => trivial, ?_⟩
  rw [h m]
  exact hm

theorem memory : Respects root (·.Kinded root) bad get := fun _ hm => ⟨.ok hm, hm⟩

theorem change (f : Memo → Memo) (h : ∀ m : Memo, (f m).values = m.values) :
    Respects root (fun _ => True) bad (modify f) :=
  fun m hm => ⟨.ok trivial, hm.of_eq (h m)⟩

theorem bind {step : Resolution α} {next : α → Resolution β} {good' : β → Prop}
    (hstep : Respects root good bad step) (hnext : ∀ a, good a → Respects root good' bad (next a)) :
    Respects root good' bad (step >>= next) := by
  intro m hm
  obtain ⟨hends, hafter⟩ := hstep m hm
  rw [perform_bind]
  cases hresult : perform step m with
  | mk result m' =>
    rw [hresult] at hends hafter
    cases result with
    | ok a => exact hnext a hends.good_of_ok m' hafter
    | error e => exact ⟨.error hends.bad_of_error, hafter⟩

theorem weaken {step : Resolution α} {good' : α → Prop} {bad' : CompileError → Prop}
    (h : Respects root good bad step) (hgood : ∀ a, good a → good' a) (hbad : ∀ e, bad e → bad' e) :
    Respects root good' bad' step := by
  intro m hm
  obtain ⟨hends, hafter⟩ := h m hm
  refine ⟨.of_result (fun a ha => ?_) (fun e he => ?_), hafter⟩
  · rw [ha] at hends
    exact hgood a hends.good_of_ok
  · rw [he] at hends
    exact hbad e hends.bad_of_error

section
variable {step : Resolution α} {m m' : Memo}

theorem of_ok {a : α} (h : Respects root good bad step) (hm : m.Kinded root)
    (hstep : perform step m = (.ok a, m')) : good a ∧ m'.Kinded root := by
  obtain ⟨hends, hafter⟩ := h m hm
  rw [hstep] at hends hafter
  exact ⟨hends.good_of_ok, hafter⟩

theorem of_error {e : CompileError} (h : Respects root good bad step) (hm : m.Kinded root)
    (hstep : perform step m = (.error e, m')) : bad e := by
  obtain ⟨hends, -⟩ := h m hm
  rw [hstep] at hends
  exact hends.bad_of_error

end

end Respects

/-! ### Fields -/

section
variable {ctx : Context} {root n : Node} {id : FieldId} {f : Field}
  {read : FieldId → Resolution Value}

def Fits (root : Node) (id : FieldId) (v : Value) : Prop :=
  ∀ n f, root.field? id = some (n, f) → f.kind.holds v = true

theorem respects_ingestScene (file : String) :
    Respects root (fun v => ∃ s, v = .text s) root.Admits (ingestScene ctx id file) := by
  refine (Respects.change (·.note _) fun _ => rfl).bind fun _ _ => ?_
  split
  · exact .throw trivial
  · exact (Respects.change (fun m => (m.keepSide _ _ _).keepSide _ _ _) fun _ => rfl).bind fun _ _ =>
      .pure ⟨file, rfl⟩

theorem respects_complete (ctx : Context) (hfield : root.field? id = some (n, f))
    (hplain : f.kind.isNested = false) {input? : Option Input}
    (hnone : input? = none → f.default?.bind Default.literal? = none) :
    Respects root (Fits root id) root.Admits (complete ctx id f.kind input?) := by
  have hfits : ∀ v, f.kind.holds v = true → Fits root id v := by
    intro v hv n' f' hfield'
    rw [hfield] at hfield'
    cases hfield'
    exact hv
  unfold complete
  split
  · next hkind =>
    have hfile : EndsIn (fun _ => True) root.Admits (sceneFileOf id.path input?) :=
      .of_result (fun _ _ => trivial) fun e he => Node.admits_of_sceneFileOf hfield hkind hnone he
    refine (Respects.ofExcept hfile).bind fun file _ => ?_
    refine (respects_ingestScene file).weaken ?_ fun _ he => he
    rintro v ⟨s, rfl⟩
    refine hfits _ ?_
    rw [hkind]
    rfl
  · next hscene =>
    refine .ofExcept (.of_result (fun v hv => hfits v (holds_of_coerce hv)) fun e he => ?_)
    exact Node.admits_of_coerce hfield hplain hscene hnone he

theorem respects_readTarget (hread : ∀ id, Respects root (Fits root id) root.Admits (read id))
    (t : Node.Target) : Respects root (fun _ => True) root.Admits (readTarget read t) := by
  refine (hread t.field).bind fun v _ => ?_
  split
  · exact .pure trivial
  · exact Respects.memory.bind fun _ _ => .pure trivial

theorem respects_follow (hread : ∀ id, Respects root (Fits root id) root.Admits (read id))
    (expression path : String) :
    Respects root (fun _ => True) root.Admits (follow root read expression path) := by
  unfold follow
  split
  · exact .throw trivial
  · split
    · exact .pure trivial
    · exact respects_readTarget hread _

theorem respects_firstInput (hread : ∀ id, Respects root (Fits root id) root.Admits (read id))
    (path : String) (sources : List Source) :
    Respects root (fun input? => input? = none → ∀ i, .given i ∉ sources) root.Admits
      (firstInput root read path sources) := by
  induction sources with
  | nil => exact .pure fun _ => nofun
  | cons source rest ih =>
    cases source with
    | given i => exact .pure nofun
    | reference expression required =>
      refine (respects_follow hread expression path).bind fun v? _ => ?_
      cases v? with
      | some v => exact .pure nofun
      | none =>
        cases required with
        | true => exact .throw trivial
        | false =>
          refine ih.weaken (fun input? h hnone i hi => ?_) fun _ he => he
          rcases List.mem_cons.mp hi with hi | hi
          · cases hi
          · exact h hnone i hi

theorem literal_of_sources {strict : Bool} (h : ∀ i, .given i ∉ n.sources strict f) :
    f.default?.bind Default.literal? = none := by
  cases hdefault : f.default? with
  | none => rfl
  | some d =>
    cases hliteral : d.literal? with
    | none => exact hliteral
    | some v =>
      have hsource : Source.ofDefault d = .given (.value v) := by
        cases d <;> cases hliteral <;> rfl
      have hmem : Source.given (.value v) ∈ n.sources strict f := by
        rw [← hsource, Node.sources, hdefault]
        exact List.mem_append_right _ List.mem_cons_self
      exact absurd hmem (h _)

theorem respects_evaluate (ctx : Context)
    (hread : ∀ id, Respects root (Fits root id) root.Admits (read id))
    (hfield : root.field? id = some (n, f)) (hplain : f.kind.isNested = false) :
    Respects root (Fits root id) root.Admits (evaluate ctx root read n id f) := by
  rw [evaluate_eq]
  refine (respects_firstInput hread id.path _).bind fun input? hinput => ?_
  exact respects_complete ctx hfield hplain fun hnone => literal_of_sources (hinput hnone)

theorem respects_whileUnderway {bad : CompileError → Prop} {step : Resolution Value}
    (h : Respects root (Fits root id) bad step) :
    Respects root (Fits root id) bad (whileUnderway id step) := by
  intro m hm
  have hstart : (m.start id).Kinded root := hm.of_eq rfl
  obtain ⟨hends, hafter⟩ := h (m.start id) hstart
  cases hresult : perform step (m.start id) with
  | mk result m' =>
    rw [hresult] at hends hafter
    have hstop : (m'.stop id).Kinded root := hafter.of_eq rfl
    cases result with
    | ok v =>
      rw [perform_whileUnderway_ok hresult]
      exact ⟨hends, hstop.remember hends.good_of_ok⟩
    | error e =>
      rw [perform_whileUnderway_error hresult]
      exact ⟨.error hends.bad_of_error, hstop⟩

theorem respects_resolveAmong (ctx : Context) (free : List FieldId)
    (hfree : ∀ x ∈ free, root.HoldsValue x) (id : FieldId) :
    Respects root (Fits root id) root.Admits (resolveAmong ctx root free id) := by
  -- The induction is on the number of fields that may still be started, all of which hold values.
  induction hn : free.length using Nat.strongRecOn generalizing free id with
  | _ size ih =>
    rw [resolveAmong]
    refine Respects.memory.bind fun memo hmemo => ?_
    split
    · next v hv => exact .pure (hmemo _ (mem_of_lookup hv))
    · split
      · exact .throw trivial
      · split
        · next hmem =>
          split
          · exact .throw trivial
          · next n f hfield =>
            have hlt := length_others_lt hmem
            rw [hn] at hlt
            have hothers : ∀ x ∈ others free id, root.HoldsValue x :=
              fun x hx => hfree x (List.mem_filter.mp hx).1
            have hread : ∀ x, Respects root (Fits root x) root.Admits
                (resolveAmong ctx root (others free id) x) :=
              fun x => ih _ hlt (others free id) hothers x rfl
            obtain ⟨n', f', hfield', hplain⟩ := hfree id hmem
            rw [hfield] at hfield'
            cases hfield'
            exact respects_whileUnderway (respects_evaluate ctx hread hfield hplain)
        · exact .throw trivial

end

section
variable {registry : Registry} {root : Node}

theorem respects_resolveField (ctx : Context) (hbuilt : root.Built registry) (id : FieldId) :
    Respects root (Fits root id) root.Admits (resolveField ctx root id) :=
  respects_resolveAmong ctx _ (fun _ hx => hbuilt.mem_scalars_iff.mp hx) id

theorem respects_lookup (ctx : Context) (hbuilt : root.Built registry) (here : Address)
    (schema : Schema) (name : String) :
    Respects root (fun _ => True) root.Admits (lookup ctx root here schema name) := by
  unfold lookup
  split
  · exact .pure trivial
  · exact respects_readTarget (respects_resolveField ctx hbuilt) _

theorem respects_resolveReference (ctx : Context) (hbuilt : root.Built registry)
    (expression : String) :
    Respects root (fun _ => True) root.Admits (resolveReference ctx root expression) :=
  respects_follow (respects_resolveField ctx hbuilt) expression documentPath

theorem respects_requireReference (ctx : Context) (hbuilt : root.Built registry)
    (expression : String) :
    Respects root (fun _ => True) root.Admits (requireReference ctx root expression) := by
  refine (respects_resolveReference ctx hbuilt expression).bind fun v? _ => ?_
  cases v? with
  | some v => exact .pure trivial
  | none => exact .throw trivial

theorem resolve_of_mem (ctx : Context) (here : Address) {schema : Schema} {f : Field}
    (hf : f ∈ schema.fields) (hplain : f.kind.isNested = false) :
    resolve ctx root here schema f.name = resolveField ctx root ⟨here, f.name⟩ := by
  rw [resolve, schema.field?_of_mem hf]
  simp [hplain]

/-- Failures to be expected where values of a section are asked for by name: those of fields, and the
one of a name that stands for a section. -/
structure Covers (root : Node) (schema : Schema) (bad : CompileError → Prop) : Prop where
  admitted : ∀ e, root.Admits e → bad e
  nested : ∀ f ∈ schema.fields, f.kind.isNested = true →
    ∀ path, bad (.invalidValue path "scalar field" "nested section")

theorem Covers.all (root : Node) (schema : Schema) : Covers root schema fun _ => True :=
  ⟨fun _ _ => trivial, fun _ _ _ _ => trivial⟩

variable {schema : Schema} {bad : CompileError → Prop}

theorem respects_resolve (ctx : Context) (hbuilt : root.Built registry) (here : Address)
    (name : String) (hbad : Covers root schema bad) :
    Respects root (Fits root ⟨here, name⟩) bad (resolve ctx root here schema name) := by
  unfold resolve
  split
  · exact .throw (hbad.admitted _ trivial)
  · next f hf =>
    split
    · next hkind => exact .throw (hbad.nested f (Schema.mem_of_field? hf).1 hkind _)
    · exact (respects_resolveField ctx hbuilt _).weaken (fun _ h => h) hbad.admitted

theorem respects_distributionKind (ctx : Context) (hbuilt : root.Built registry) (here : Address)
    (hbad : Covers root schema bad) :
    Respects root (fun _ => True) bad (distributionKind ctx root here schema) := by
  refine (respects_resolve ctx hbuilt here Schema.kindField hbad).bind fun v _ => ?_
  simp only
  split
  · exact .pure trivial
  · exact .throw (hbad.admitted _ trivial)

theorem respects_distributionNumber (ctx : Context) (hbuilt : root.Built registry) (here : Address)
    (name : String) (hbad : Covers root schema bad) :
    Respects root (fun _ => True) bad (distributionNumber ctx root here schema name) := by
  refine (respects_resolve ctx hbuilt here name hbad).bind fun v _ => ?_
  split
  · exact .pure trivial
  · refine .throw (hbad.admitted _ ?_)
    show "number" ∈ Input.readings
    decide

theorem respects_distribution (ctx : Context) (hbuilt : root.Built registry) (here : Address)
    (hbad : Covers root schema bad) :
    Respects root (fun _ => True) bad (distribution ctx root here schema) :=
  (respects_distributionKind ctx hbuilt here hbad).bind fun kind _ =>
    (respects_distributionNumber ctx hbuilt here kind.firstName hbad).bind fun _ _ =>
      (respects_distributionNumber ctx hbuilt here kind.secondName hbad).bind fun _ _ =>
        .pure trivial

end
end Resolution
end CrowdScenario

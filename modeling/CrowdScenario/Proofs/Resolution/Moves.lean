import CrowdScenario.Proofs.Resolution.Machine

/-!
# Resolution makes the moves of an evaluation

Resolution counts down the fields that may still be started. The machine does not, and yet both come
to the same end with the same memory: what a reference leads to is always a field of the tree, and
one that may be started unless it is under way (`ends_resolveField`).
-/

namespace CrowdScenario

namespace Node

def HoldsValue (root : Node) (id : FieldId) : Prop :=
  ∃ n f, root.field? id = some (n, f) ∧ f.kind.isNested = false

theorem holdsValue_of_mem {root n : Node} {here : Address} (hn : root.at? here = some n) {f : Field}
    (hf : f ∈ n.schema.fields) (hplain : f.kind.isNested = false) :
    root.HoldsValue ⟨here, f.name⟩ :=
  ⟨n, f, field?_eq_some.mpr ⟨hn, n.schema.field?_of_mem hf⟩, hplain⟩

theorem holdsValue_of_target? {root n : Node} {here : Address} (hn : root.at? here = some n)
    {name : String} {selection : Reference} {t : Target}
    (h : target? n.schema here name selection = some t) : root.HoldsValue t.field := by
  unfold target? at h
  split at h
  · next f hf =>
    split at h
    · cases h
    · next hplain =>
      cases h
      exact ⟨n, f, field?_eq_some.mpr ⟨hn, hf⟩, by simpa using hplain⟩
  · obtain ⟨f, howner, rfl⟩ := Option.map_eq_some_iff.mp h
    have hnames := List.find?_some howner
    refine holdsValue_of_mem hn (List.mem_of_find?_eq_some howner) ?_
    cases hkind : f.kind with
    | sceneFile => rfl
    | _ =>
      rw [hkind] at hnames
      simp [FieldKind.sideNames] at hnames

theorem holdsValue_of_locate? {root n : Node} {here : Address} (hn : root.at? here = some n)
    {reference : Reference} {t : Target} (h : n.locate? here reference = some t) :
    root.HoldsValue t.field := by
  induction reference generalizing n here with
  | nil => cases h
  | cons segment rest ih =>
    cases segment with
    | tag name => cases h
    | field name =>
      rw [locate?] at h
      split at h
      · next c hc =>
        refine ih ?_ h
        rw [at?_append, hn, Option.bind_some, at?, hc]
        rfl
      · exact holdsValue_of_target? hn h

theorem mem_scalarsBelow {here : Address} {name : String} {n : Node} {id : FieldId}
    (h : id ∈ scalars (here ++ [name]) n) :
    ∀ {children : List (String × Node)}, (name, n) ∈ children → id ∈ scalarsBelow here children
  | [], hmem => by cases hmem
  | (name', n') :: rest, hmem => by
    rw [scalarsBelow, List.mem_append]
    cases hmem with
    | head => exact .inl h
    | tail _ hmem => exact .inr (mem_scalarsBelow h hmem)

theorem mem_scalars_of_at? {n c : Node} {here below : Address} {f : Field}
    (hc : n.at? below = some c) (hf : f ∈ c.schema.fields) (hplain : f.kind.isNested = false) :
    ⟨here ++ below, f.name⟩ ∈ n.scalars here := by
  induction below generalizing n here with
  | nil =>
    cases hc
    rcases c with ⟨schema, slot?, members, children⟩
    have hown : ⟨here, f.name⟩ ∈ ownScalars schema here :=
      List.mem_map.mpr ⟨f, List.mem_filter.mpr ⟨hf, by simpa using hplain⟩, rfl⟩
    rw [scalars, List.append_nil]
    exact List.mem_append_left _ hown
  | cons name below ih =>
    rcases n with ⟨schema, slot?, members, children⟩
    obtain ⟨n', hn', hc'⟩ := Option.bind_eq_some_iff.mp hc
    have hbelow : ⟨(here ++ [name]) ++ below, f.name⟩ ∈ n'.scalars (here ++ [name]) := ih hc'
    rw [List.append_assoc, List.singleton_append] at hbelow
    rw [scalars]
    exact List.mem_append_right _ (mem_scalarsBelow hbelow (mem_of_lookup hn'))

theorem HoldsValue.mem_scalars {root : Node} {id : FieldId} (h : root.HoldsValue id) :
    id ∈ root.scalars [] := by
  obtain ⟨n, f, hfield, hplain⟩ := h
  obtain ⟨hn, hf⟩ := field?_eq_some.mp hfield
  obtain ⟨hmem, hname⟩ := Schema.mem_of_field? hf
  have hscalar : ⟨[] ++ id.owner, f.name⟩ ∈ root.scalars [] := mem_scalars_of_at? hn hmem hplain
  rwa [hname] at hscalar

end Node

namespace Evaluation

variable {ctx : Context} {root : Node} {asked : FieldId} {s s' : Evaluation} {id : FieldId}
  {ids : List FieldId}

theorem holdsValue_of_reads? (hasked : root.HoldsValue asked) (h : reads? root asked s = some id) :
    root.HoldsValue id := by
  rcases s with ⟨m, _ | ⟨fr, rest⟩⟩
  · cases h
    exact hasked
  · obtain ⟨t, hleads, rfl⟩ := Option.map_eq_some_iff.mp h
    unfold leads? at hleads
    split at hleads
    · obtain ⟨reference, -, hlocate⟩ := Option.bind_eq_some_iff.mp hleads
      exact Node.holdsValue_of_locate? rfl hlocate
    · cases hleads

theorem Runs.holdsValue (h : Runs ctx root asked s ids s') (hasked : root.HoldsValue asked) :
    ∀ id ∈ ids, root.HoldsValue id := by
  induction h with
  | stay => nofun
  | pass next _ ih => exact ih
  | start next _ ih =>
    intro x hx
    rcases List.mem_cons.mp hx with rfl | hx
    · exact holdsValue_of_reads? hasked (move_eq_start next).1
    · exact ih x hx

/-- From a state a step of resolution and an evaluation get equally far: if the step has a result, to
a state that goes with it, and if not, to an end with the same failure. Fields are under way as given
when the step begins. -/
def Reaches {α : Type} (ctx : Context) (root : Node) (asked : FieldId) (busy : List FieldId)
    (s : Evaluation) (step : Resolution α) (good : α → Evaluation → Prop) : Prop :=
  match Resolution.perform step s.memory with
  | (.ok a, m) => ∃ ids s', Runs ctx root asked s ids s' ∧ s'.memory = m ∧ good a s'
  | (.error e, m) => ∃ ids, Ends ctx root asked s ids (.error e) (unwind busy m)

namespace Reaches

variable {α β : Type} {busy : List FieldId} {step : Resolution α} {good : α → Evaluation → Prop}
  {good' : β → Evaluation → Prop}

theorem pure {a : α} (h : good a s) : Reaches ctx root asked busy s (Pure.pure a) good :=
  ⟨[], s, .stay s, rfl, h⟩

theorem throw {e : CompileError}
    (h : move ctx root asked s = .halt (.error e) (unwind busy s.memory)) :
    Reaches ctx root asked busy s (MonadExcept.throw e) good :=
  ⟨[], s, .stay s, h⟩

theorem bind {next : α → Resolution β} (h : Reaches ctx root asked busy s step good) (hs : s.Sane)
    (hnext : ∀ a s', s'.Sane → good a s' → Reaches ctx root asked busy s' (next a) good') :
    Reaches ctx root asked busy s (step >>= next) good' := by
  unfold Reaches at h
  unfold Reaches
  rw [Resolution.perform_bind]
  cases hresult : Resolution.perform step s.memory with
  | mk result m =>
    rw [hresult] at h
    cases result with
    | error e => exact h
    | ok a =>
      obtain ⟨ids, s', hruns, rfl, hgood⟩ := h
      have hafter := hnext a s' (hruns.sane hs) hgood
      unfold Reaches at hafter
      simp only
      cases hresult' : Resolution.perform (next a) s'.memory with
      | mk result' m' =>
        rw [hresult'] at hafter
        cases result' with
        | error e =>
          obtain ⟨ids', last, hruns', hhalt⟩ := hafter
          exact ⟨ids ++ ids', last, hruns.trans hruns', hhalt⟩
        | ok b =>
          obtain ⟨ids', s'', hruns', hmemory, hgood'⟩ := hafter
          exact ⟨ids ++ ids', s'', hruns.trans hruns', hmemory, hgood'⟩

theorem memory_bind {next : Memo → Resolution α}
    (h : Reaches ctx root asked busy s (next s.memory) good) :
    Reaches ctx root asked busy s (get >>= next) good := by
  unfold Reaches at h ⊢
  rw [Resolution.perform_bind_ok (Resolution.perform_get _)]
  exact h

theorem passed (hmove : move ctx root asked s = .pass s') (hmemory : s'.memory = s.memory)
    (h : Reaches ctx root asked busy s' step good) : Reaches ctx root asked busy s step good := by
  unfold Reaches at h ⊢
  rw [hmemory] at h
  cases hresult : Resolution.perform step s.memory with
  | mk result m =>
    rw [hresult] at h
    cases result with
    | error e =>
      obtain ⟨ids, last, hruns, hhalt⟩ := h
      exact ⟨ids, last, .pass hmove hruns, hhalt⟩
    | ok a =>
      obtain ⟨ids, last, hruns, hend, hgood⟩ := h
      exact ⟨ids, last, .pass hmove hruns, hend, hgood⟩

end Reaches

/-- A field is read along the evaluation from wherever it is to be read next. -/
def ReadsAlong (ctx : Context) (root : Node) (asked : FieldId) (busy : List FieldId)
    (read : FieldId → Resolution Value) : Prop :=
  ∀ s id, s.busy = busy → s.Sane → reads? root asked s = some id →
    Reaches ctx root asked busy s (read id) fun v s' =>
      s'.frames = s.frames ∧ s'.memory.value? id = some v

/-! ### Sources -/

section
variable {read : FieldId → Resolution Value} {m : Memo} {fr : Frame} {rest : List Frame}

theorem reaches_readTarget {busy : List FieldId} {t : Node.Target}
    (hread : ReadsAlong ctx root asked busy read) (hbusy : s.busy = busy) (hs : s.Sane)
    (hreads : reads? root asked s = some t.field) :
    Reaches ctx root asked busy s (Resolution.readTarget read t) fun v? s' =>
      s'.frames = s.frames ∧
        ∃ v, s'.memory.value? t.field = some v ∧ v? = selected? s'.memory t v := by
  refine (hread s t.field hbusy hs hreads).bind hs fun v s' _ hgood => ?_
  obtain ⟨hframes, hvalue⟩ := hgood
  cases hside : t.side? with
  | none =>
    refine Reaches.pure ⟨hframes, v, hvalue, ?_⟩
    rw [selected?, hside]
  | some name =>
    refine Reaches.memory_bind (Reaches.pure ⟨hframes, v, hvalue, ?_⟩)
    rw [selected?, hside]

def HasInput (root : Node) (fr : Frame) (rest : List Frame) (input? : Option Input)
    (s : Evaluation) : Prop :=
  ∃ left, s.frames = { fr with sources := left } :: rest ∧
    prospect root s.memory fr.field.path left = .input input?

theorem reaches_passOver {sources left : List Source} {expression : String} {required : Bool}
    {next : Resolution (Option Input)}
    (hprospect : prospect root m fr.field.path sources =
      passOver fr.field.path expression required left)
    (hnext : Reaches ctx root asked (fr.field :: rest.map Frame.field)
      ⟨m, { fr with sources := left } :: rest⟩ next (HasInput root fr rest)) :
    Reaches ctx root asked (fr.field :: rest.map Frame.field)
      ⟨m, { fr with sources := sources } :: rest⟩
      (if required then throw (.unresolvedReference expression fr.field.path) else next)
      (HasInput root fr rest) := by
  cases required with
  | true =>
    refine Reaches.throw ?_
    rw [move, hprospect]
    rfl
  | false =>
    have hmove : move ctx root asked ⟨m, { fr with sources := sources } :: rest⟩ =
        .pass ⟨m, { fr with sources := left } :: rest⟩ := by
      rw [move, hprospect]
      rfl
    exact Reaches.passed hmove rfl hnext

theorem reaches_firstInput (fr : Frame) (rest : List Frame)
    (hread : ReadsAlong ctx root asked (fr.field :: rest.map Frame.field) read)
    (sources : List Source) (m : Memo)
    (hsane : Sane ⟨m, { fr with sources := sources } :: rest⟩) :
    Reaches ctx root asked (fr.field :: rest.map Frame.field)
      ⟨m, { fr with sources := sources } :: rest⟩
      (Resolution.firstInput root read fr.field.path sources) (HasInput root fr rest) := by
  induction sources generalizing m with
  | nil => exact Reaches.pure ⟨[], rfl, rfl⟩
  | cons source left ih =>
    cases source with
    | given i => exact Reaches.pure ⟨.given i :: left, rfl, rfl⟩
    | reference expression required =>
      rw [Resolution.firstInput, Resolution.follow]
      cases hparse : Reference.parse? expression with
      | none =>
        have hfail : Reaches ctx root asked (fr.field :: rest.map Frame.field)
            ⟨m, { fr with sources := .reference expression required :: left } :: rest⟩
            (throw (.malformedReference expression fr.field.path) : Resolution (Option Value))
            fun _ _ => False := by
          refine Reaches.throw ?_
          rw [move, prospect, hparse]
          rfl
        exact hfail.bind hsane fun _ _ _ hfalse => hfalse.elim
      | some reference =>
        simp only
        cases hlocate : root.locate? [] reference with
        | none =>
          simp only [pure_bind]
          refine reaches_passOver ?_ (ih m ⟨hsane.underway, hsane.nodup, hsane.idle⟩)
          rw [prospect, hparse]
          simp only
          rw [hlocate]
        | some t =>
          simp only
          have hreads : reads? root asked
              ⟨m, { fr with sources := .reference expression required :: left } :: rest⟩ =
                some t.field := by
            rw [reads?, leads?, hparse, Option.bind_some, hlocate]
            rfl
          refine (reaches_readTarget hread rfl hsane hreads).bind hsane fun v? s' hsane' hgood => ?_
          obtain ⟨hframes, v, hvalue, rfl⟩ := hgood
          rcases s' with ⟨m', frames⟩
          cases hframes
          have hprospect : prospect root m' fr.field.path
              (.reference expression required :: left) =
                (selected? m' t v).elim (passOver fr.field.path expression required left) fun v' =>
                  .input (some (.value v')) := prospect_of_value hparse hlocate hvalue
          cases hselected : selected? m' t v with
          | some v' =>
            rw [hselected] at hprospect
            exact Reaches.pure ⟨_, rfl, hprospect⟩
          | none =>
            rw [hselected] at hprospect
            exact reaches_passOver hprospect (ih m' ⟨hsane'.underway, hsane'.nodup, hsane'.idle⟩)

end

theorem reaches_whileUnderway {read : FieldId → Resolution Value} {n : Node} {f : Field}
    (hread : ReadsAlong ctx root asked (id :: s.busy) read) (hs : s.Sane)
    (hreads : reads? root asked s = some id) (hvalue : s.memory.value? id = none)
    (hbusy : id ∉ s.busy) (hfield : root.field? id = some (n, f)) :
    Reaches ctx root asked s.busy s
      (Resolution.whileUnderway id (Resolution.evaluate ctx root read n id f)) fun v s' =>
        s'.frames = s.frames ∧ s'.memory.value? id = some v := by
  let fr : Frame := ⟨id, f.kind, n.sources ctx.settings.strictReferences f⟩
  have hstart : move ctx root asked s = .start id ⟨s.memory.start id, fr :: s.frames⟩ := by
    rw [move_eq_enter hreads hvalue, enter, if_neg hbusy, hfield]
  have hinput : Reaches ctx root asked (id :: s.busy) ⟨s.memory.start id, fr :: s.frames⟩
      (Resolution.firstInput root read id.path fr.sources) (HasInput root fr s.frames) :=
    reaches_firstInput fr s.frames hread fr.sources (s.memory.start id) (hs.start hstart)
  unfold Reaches at hinput ⊢
  cases hperform : Resolution.perform (Resolution.firstInput root read id.path fr.sources)
      (s.memory.start id) with
  | mk result m =>
    rw [hperform] at hinput
    cases result with
    | error e =>
      obtain ⟨ids, last, hruns, hhalt⟩ := hinput
      have hevaluate : Resolution.perform (Resolution.evaluate ctx root read n id f)
          (s.memory.start id) = (.error e, m) := Resolution.perform_bind_error hperform
      rw [Resolution.perform_whileUnderway_error hevaluate]
      exact ⟨id :: ids, last, .start hstart hruns, hhalt⟩
    | ok input? =>
      obtain ⟨ids, ⟨m', frames⟩, hruns, rfl, left, hframes, hprospect⟩ := hinput
      cases hframes
      have hevaluate : Resolution.perform (Resolution.evaluate ctx root read n id f)
          (s.memory.start id) =
            Resolution.perform (Resolution.complete ctx id f.kind input?) m' :=
        Resolution.perform_bind_ok hperform
      have hmove : move ctx root asked ⟨m', { fr with sources := left } :: s.frames⟩ =
          settle ctx m' { fr with sources := left } s.frames input? := by
        rw [move, hprospect]
        rfl
      cases hcomplete : Resolution.perform (Resolution.complete ctx id f.kind input?) m' with
      | mk result m'' =>
        rw [hcomplete] at hevaluate
        cases result with
        | error e =>
          rw [Resolution.perform_whileUnderway_error hevaluate]
          refine ⟨id :: ids, _, .start hstart hruns, ?_⟩
          rw [hmove, settle, hcomplete]
          rfl
        | ok v =>
          rw [Resolution.perform_whileUnderway_ok hevaluate]
          have hpass : move ctx root asked ⟨m', { fr with sources := left } :: s.frames⟩ =
              .pass ⟨(m''.stop id).remember id v, s.frames⟩ := by
            rw [hmove, settle, hcomplete]
          refine ⟨id :: (ids ++ []), ⟨(m''.stop id).remember id v, s.frames⟩, ?_, rfl, rfl, ?_⟩
          · exact .start hstart (hruns.trans (.pass hpass (.stay _)))
          · rw [value?_remember, if_pos rfl]

/-- Every field is read along an evaluation. -/
theorem readsAlong_resolveAmong (hasked : root.HoldsValue asked) {busy : List FieldId}
    (free : List FieldId) (hfree : ∀ id, id ∈ free ↔ id ∈ root.scalars [] ∧ id ∉ busy) :
    ReadsAlong ctx root asked busy (Resolution.resolveAmong ctx root free) := by
  -- The induction is on the number of fields that resolution may still start.
  induction hn : free.length using Nat.strongRecOn generalizing free busy with
  | _ size ih =>
    rintro s id rfl hs hreads
    rw [Resolution.resolveAmong]
    refine Reaches.memory_bind ?_
    cases hvalue : s.memory.value? id with
    | some v => exact Reaches.pure ⟨rfl, hvalue⟩
    | none =>
      simp only
      rw [hs.underway]
      by_cases hbusy : id ∈ s.busy
      · rw [if_pos hbusy]
        refine Reaches.throw ?_
        rw [move_eq_enter hreads hvalue, enter, if_pos hbusy]
        rfl
      · have hslot := holdsValue_of_reads? hasked hreads
        have hmem : id ∈ free := (hfree id).mpr ⟨hslot.mem_scalars, hbusy⟩
        obtain ⟨n, f, hfield, -⟩ := hslot
        have hothers := mem_others_iff hfree id
        have hlt := Resolution.length_others_lt hmem
        rw [hn] at hlt
        rw [if_neg hbusy, dif_pos hmem, hfield]
        exact reaches_whileUnderway (ih _ hlt (Resolution.others free id) hothers rfl) hs hreads
          hvalue hbusy hfield

/-- Resolution of a field ends as its evaluation does, and leaves the same memory behind. -/
theorem ends_resolveField (ctx : Context) (hasked : root.HoldsValue asked) {m : Memo}
    (hm : m.underway = []) :
    ∃ ids, Ends ctx root asked ⟨m, []⟩ ids
      (Resolution.perform (Resolution.resolveField ctx root asked) m).1
      (Resolution.perform (Resolution.resolveField ctx root asked) m).2 := by
  have hread : ReadsAlong ctx root asked [] (Resolution.resolveField ctx root) :=
    readsAlong_resolveAmong hasked _ fun _ => ⟨fun h => ⟨h, List.not_mem_nil⟩, fun h => h.1⟩
  have hsane : Sane ⟨m, []⟩ := ⟨hm, List.nodup_nil, nofun⟩
  have hreaches := hread ⟨m, []⟩ asked rfl hsane rfl
  unfold Reaches at hreaches
  cases hperform : Resolution.perform (Resolution.resolveField ctx root asked) m with
  | mk result m' =>
    rw [hperform] at hreaches
    cases result with
    | error e => exact hreaches
    | ok v =>
      obtain ⟨ids, ⟨m'', frames⟩, hruns, rfl, rfl, hvalue⟩ := hreaches
      refine ⟨ids, _, hruns, ?_⟩
      rw [move, show m''.value? asked = some v from hvalue]

end Evaluation
end CrowdScenario

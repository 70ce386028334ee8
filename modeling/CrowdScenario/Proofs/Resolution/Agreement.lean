import CrowdScenario.Proofs.Resolution.Blame
import CrowdScenario.Proofs.Resolution.Findings

/-!
# Resolution agrees with plain evaluation

A memory keeps sound findings and the fields under way. From such a memory every step of resolution
ends as the inquiry it stands for, and leaves such a memory behind, with more findings at most. The
induction is on the fields that may still be started (`reads_resolveAmong`).
-/

namespace CrowdScenario

/-- A memory keeps sound findings, none of which is under way. -/
structure Memo.Keeps (ctx : Context) (root : Node) (m : Memo) (found : Findings)
    (busy : List FieldId) : Prop where
  values : ∀ id, m.value? id = (found.lookup id).map Evaluated.value
  sides : ∀ here name, m.side? here name = found.side? here name
  underway : m.underway = busy
  sound : found.Sound ctx root
  idle : ∀ id ∈ busy, found.lookup id = none

namespace Memo.Keeps

variable {ctx : Context} {root : Node} {m : Memo} {found : Findings} {busy : List FieldId}

theorem empty : Keeps ctx root .empty [] [] where
  values _ := rfl
  sides _ _ := rfl
  underway := rfl
  sound := .nil
  idle := nofun

theorem start (h : m.Keeps ctx root found busy) {id : FieldId} (hnew : found.lookup id = none) :
    (m.start id).Keeps ctx root found (id :: busy) where
  values := h.values
  sides := h.sides
  underway := congrArg (id :: ·) h.underway
  sound := h.sound
  idle x hx := by
    cases hx with
    | head => exact hnew
    | tail _ hx => exact h.idle x hx

theorem underway_stop {id : FieldId} (h : m.underway = id :: busy) (hid : id ∉ busy) :
    (m.stop id).underway = busy := by
  have hothers : ∀ x ∈ busy, x ≠ id := by
    intro x hx heq
    rw [heq] at hx
    exact hid hx
  rw [Memo.stop, h]
  simpa using hothers

theorem stop {id : FieldId} (h : m.Keeps ctx root found (id :: busy)) (hid : id ∉ busy) :
    (m.stop id).Keeps ctx root found busy where
  values := h.values
  sides := h.sides
  underway := underway_stop h.underway hid
  sound := h.sound
  idle x hx := h.idle x (List.mem_cons_of_mem _ hx)

end Memo.Keeps

section
variable (ctx : Context) (root : Node) (busy : List FieldId)

/-- From a memory with the given findings a step ends as its inquiry does. -/
def AgreesAt {α : Type} (found : Findings) (step : Resolution α) (p : Inquiry α) : Prop :=
  ∀ m, m.Keeps ctx root found busy → ∃ m' found',
    Resolution.perform step m = (p (Plain.field ctx root busy), m') ∧
      m'.Keeps ctx root found' busy ∧ found <:+ found' ∧
      ∀ a, p (Plain.field ctx root busy) = .ok a → p found'.read = .ok a

structure Agrees {α : Type} (step : Resolution α) (p : Inquiry α) : Prop where
  monotone : p.Monotone
  agreesAt : ∀ found, AgreesAt ctx root busy found step p

def Reads (read : FieldId → Resolution Value) : Prop :=
  ∀ id found m, m.Keeps ctx root found busy → ∃ m' found',
    Resolution.perform (read id) m = ((Plain.field ctx root busy id).map Evaluated.value, m') ∧
      m'.Keeps ctx root found' busy ∧ found <:+ found' ∧
      ∀ e, Plain.field ctx root busy id = .ok e → found'.lookup id = some e

end

variable {ctx : Context} {root : Node} {busy : List FieldId} {found : Findings}

theorem AgreesAt.still {α : Type} {step : Resolution α} {result : Except CompileError α}
    (h : ∀ m, m.Keeps ctx root found busy → Resolution.perform step m = (result, m)) :
    AgreesAt ctx root busy found step (Plain.ofExcept result) :=
  fun m hm => ⟨m, found, h m hm, hm, List.suffix_rfl, fun _ ha => ha⟩

theorem AgreesAt.bind {α β : Type} {step : Resolution α} {p : Inquiry α}
    {next : α → Resolution β} {q : α → Inquiry β} (hp : AgreesAt ctx root busy found step p)
    (hmono : p.Monotone)
    (hq : ∀ a found', found <:+ found' → AgreesAt ctx root busy found' (next a) (q a)) :
    AgreesAt ctx root busy found (step >>= next) (p >>= q) := by
  intro m hm
  obtain ⟨m1, found1, hrun, hm1, hsuffix, hagain⟩ := hp m hm
  cases hresult : p (Plain.field ctx root busy) with
  | error e =>
    rw [hresult] at hrun
    have hbind : (p >>= q) (Plain.field ctx root busy) = .error e := by
      rw [Inquiry.bind_apply, hresult]
      rfl
    refine ⟨m1, found1, ?_, hm1, hsuffix, ?_⟩
    · rw [Resolution.perform_bind_error hrun, hbind]
    · intro b hb
      rw [hbind] at hb
      cases hb
  | ok a =>
    rw [hresult] at hrun
    obtain ⟨m2, found2, hrun2, hm2, hsuffix2, hagain2⟩ := hq a found1 hsuffix m1 hm1
    have hbind : (p >>= q) (Plain.field ctx root busy) = q a (Plain.field ctx root busy) := by
      rw [Inquiry.bind_apply, hresult]
      rfl
    refine ⟨m2, found2, ?_, hm2, hsuffix.trans hsuffix2, ?_⟩
    · rw [Resolution.perform_bind_ok hrun, hrun2, hbind]
    · intro b hb
      rw [hbind] at hb
      -- What the first step found still answers it once the second has added its findings.
      have hbelow := hm2.sound.below_of_suffix hsuffix2
      exact Inquiry.bind_eq_ok.mpr ⟨a, hmono _ _ hbelow a (hagain a hresult), hagain2 b hb⟩

theorem AgreesAt.read_bind {β : Type} {read : FieldId → Resolution Value} {id : FieldId}
    {next : Value → Resolution β} {q : Evaluated → Inquiry β} (hread : Reads ctx root busy read)
    (hq : ∀ e found', found'.lookup id = some e →
      AgreesAt ctx root busy found' (next e.value) (q e)) :
    AgreesAt ctx root busy found (read id >>= next) (Plain.ask id >>= q) := by
  intro m hm
  obtain ⟨m1, found1, hrun, hm1, hsuffix, hfound⟩ := hread id found m hm
  cases hresult : Plain.field ctx root busy id with
  | error e =>
    rw [hresult] at hrun
    have hbind : (Plain.ask id >>= q) (Plain.field ctx root busy) = .error e := by
      rw [Inquiry.bind_apply, Plain.ask, hresult]
      rfl
    refine ⟨m1, found1, ?_, hm1, hsuffix, ?_⟩
    · rw [Resolution.perform_bind_error hrun, hbind]
    · intro b hb
      rw [hbind] at hb
      cases hb
  | ok e =>
    rw [hresult] at hrun
    have hlookup := hfound e hresult
    obtain ⟨m2, found2, hrun2, hm2, hsuffix2, hagain2⟩ := hq e found1 hlookup m1 hm1
    have hbind : (Plain.ask id >>= q) (Plain.field ctx root busy) =
        q e (Plain.field ctx root busy) := by
      rw [Inquiry.bind_apply, Plain.ask, hresult]
      rfl
    refine ⟨m2, found2, ?_, hm2, hsuffix.trans hsuffix2, ?_⟩
    · rw [Resolution.perform_bind_ok hrun, hrun2, hbind]
    · intro b hb
      rw [hbind] at hb
      have hlater := hm2.sound.lookup_of_suffix hsuffix2 hlookup
      exact Inquiry.bind_eq_ok.mpr ⟨e, Findings.read_eq_ok.mpr hlater, hagain2 b hb⟩

namespace Agrees

theorem ofExcept {α : Type} (result : Except CompileError α) :
    Agrees ctx root busy (Resolution.ofExcept result) (Plain.ofExcept result) where
  monotone := Inquiry.monotone_ofExcept result
  agreesAt _ := AgreesAt.still fun m _ => Resolution.perform_ofExcept result m

theorem pure {α : Type} (a : α) : Agrees ctx root busy (Pure.pure a) (Pure.pure a) :=
  ofExcept (.ok a)

theorem throw {α : Type} (e : CompileError) :
    Agrees ctx root busy (MonadExcept.throw e : Resolution α) (Plain.ofExcept (.error e)) :=
  ofExcept (.error e)

theorem bind {α β : Type} {step : Resolution α} {p : Inquiry α} {next : α → Resolution β}
    {q : α → Inquiry β} (hp : Agrees ctx root busy step p)
    (hq : ∀ a, Agrees ctx root busy (next a) (q a)) :
    Agrees ctx root busy (step >>= next) (p >>= q) where
  monotone := Inquiry.monotone_bind hp.monotone fun a => (hq a).monotone
  agreesAt found :=
    (hp.agreesAt found).bind hp.monotone fun a found' _ => (hq a).agreesAt found'

end Agrees

def Node.Target.OfScene (root : Node) (t : Node.Target) : Prop :=
  t.side?.isSome → ∃ n f, root.field? t.field = some (n, f) ∧ f.kind = .sceneFile

theorem agrees_readTarget {read : FieldId → Resolution Value} {t : Node.Target}
    (hscene : root.SingleScene) (hread : Reads ctx root busy read) (ht : t.OfScene root) :
    Agrees ctx root busy (Resolution.readTarget read t) (Plain.readTarget t) where
  monotone := Plain.monotone_readTarget t
  agreesAt found := by
    refine AgreesAt.read_bind hread fun e found' hfound => ?_
    cases hside : t.side? with
    | none => exact (Agrees.pure _).agreesAt found'
    | some name =>
      obtain ⟨n, f, hfield, hkind⟩ := ht (by rw [hside]; rfl)
      refine AgreesAt.still fun m hm => ?_
      have hvalue : m.side? t.field.owner name = e.sides.lookup name := by
        rw [hm.sides, hm.sound.side?_eq hscene hfield hkind hfound]
      rw [Resolution.perform_bind_ok (Resolution.perform_get m), hvalue]
      rfl

namespace Node

theorem at?_append (n : Node) (a b : Address) : n.at? (a ++ b) = (n.at? a).bind (·.at? b) := by
  induction a generalizing n with
  | nil => rfl
  | cons name a ih =>
    rw [List.cons_append, at?, at?]
    cases n.child? name with
    | none => rfl
    | some c => exact ih c

theorem target?_ofScene {root n : Node} {here : Address} (hn : root.at? here = some n)
    {name : String} {selection : Reference} {t : Target}
    (h : target? n.schema here name selection = some t) : t.OfScene root := by
  intro hside
  unfold target? at h
  split at h
  · split at h
    · cases h
    · cases h
      cases hside
  · obtain ⟨f, howner, rfl⟩ := Option.map_eq_some_iff.mp h
    have hmem := List.mem_of_find?_eq_some howner
    have hnames := List.find?_some howner
    have hkind : f.kind = .sceneFile := by
      cases hk : f.kind with
      | sceneFile => rfl
      | _ =>
        rw [hk] at hnames
        simp [FieldKind.sideNames] at hnames
    exact ⟨n, f, field?_eq_some.mpr ⟨hn, n.schema.field?_of_mem hmem⟩, hkind⟩

theorem locate?_ofScene {root n : Node} {here : Address} (hn : root.at? here = some n)
    {reference : Reference} {t : Target} (h : n.locate? here reference = some t) :
    t.OfScene root := by
  induction reference generalizing n here with
  | nil => cases h
  | cons segment rest ih =>
    cases segment with
    | tag name => cases h
    | field name =>
      rw [locate?] at h
      split at h
      · next c hc =>
        refine ih ?_ h
        rw [at?_append, hn, Option.bind_some, at?, hc]
        rfl
      · exact target?_ofScene hn h

end Node

variable {read : FieldId → Resolution Value}

theorem agrees_follow (hscene : root.SingleScene) (hread : Reads ctx root busy read)
    (expression path : String) :
    Agrees ctx root busy (Resolution.follow root read expression path)
      (Plain.follow root expression path) := by
  unfold Resolution.follow Plain.follow
  cases Reference.parse? expression with
  | none => exact Agrees.throw _
  | some reference =>
    simp only
    cases hlocate : root.locate? [] reference with
    | none => exact Agrees.pure _
    | some t => exact agrees_readTarget hscene hread (Node.locate?_ofScene rfl hlocate)

theorem agrees_firstInput (hscene : root.SingleScene) (hread : Reads ctx root busy read)
    (path : String) (sources : List Source) :
    Agrees ctx root busy (Resolution.firstInput root read path sources)
      (Plain.firstInput root path sources) := by
  induction sources with
  | nil => exact Agrees.pure _
  | cons source rest ih =>
    cases source with
    | given i => exact Agrees.pure _
    | reference expression required =>
      refine (agrees_follow hscene hread expression path).bind fun v? => ?_
      cases v? with
      | some v => exact Agrees.pure _
      | none =>
        cases required with
        | true => exact Agrees.throw _
        | false => exact ih

/-! ### Fields -/

namespace Resolution

def keepSides (m : Memo) (here : Address) (sides : List (String × Value)) : Memo :=
  { m with sides := sides.map (fun s => ((here, s.1), s.2)) ++ m.sides }

theorem side?_keepSides (m : Memo) (here here' : Address) (sides : List (String × Value))
    (name : String) :
    (keepSides m here sides).side? here' name =
      if here = here' then (sides.lookup name).or (m.side? here' name) else m.side? here' name := by
  induction sides with
  | nil => simp [keepSides, Memo.side?]
  | cons s sides ih =>
    rcases s with ⟨name', v⟩
    have hstep : (keepSides m here ((name', v) :: sides)).side? here' name =
        if (here', name) = (here, name') then some v
        else (keepSides m here sides).side? here' name := by
      rw [keepSides, Memo.side?, List.map_cons, List.cons_append, List.lookup_cons]
      by_cases heq : (here', name) = (here, name')
      · rw [beq_iff_eq.mpr heq, if_pos heq]
      · rw [beq_eq_false_iff_ne.mpr heq, if_neg heq]
        rfl
    rw [hstep, ih, List.lookup_cons]
    by_cases hhere : here = here'
    · by_cases hname : name = name'
      · simp [hhere, hname]
      · have hbeq : (name == name') = false := beq_eq_false_iff_ne.mpr hname
        simp [hhere, hname, hbeq]
    · have hne : ¬ here' = here := fun h => hhere h.symm
      simp [hhere, hne]

def attempt (ctx : Context) (id : FieldId) (file : String) : Ingestion :=
  ⟨id, ctx.scenePath file, (ctx.ingest (ctx.scenePath file)).isOk⟩

theorem perform_ingestScene (id : FieldId) (file : String) (m : Memo) :
    perform (ingestScene ctx id file) m =
      match Plain.ingestScene ctx id file with
      | .ok e => (.ok e.value, keepSides (m.note (attempt ctx id file)) id.owner e.sides)
      | .error e => (.error e, m.note (attempt ctx id file)) := by
  rw [ingestScene, perform_bind_ok (perform_modify _ m), Plain.ingestScene, attempt]
  cases ctx.ingest (ctx.scenePath file) with
  | error e => rfl
  | ok records =>
    simp only
    rw [perform_bind_ok (perform_modify _ _)]
    rfl

theorem perform_complete_eq_finish (ctx : Context) (id : FieldId) (kind : FieldKind)
    (input? : Option Input) (m : Memo) :
    ∃ ingested, perform (complete ctx id kind input?) m =
      match Plain.finish ctx id kind input? with
      | .ok e => (.ok e.value, keepSides { m with ingested := ingested } id.owner e.sides)
      | .error e => (.error e, { m with ingested := ingested }) := by
  cases kind with
  | sceneFile =>
    rw [complete]
    simp only [Plain.finish]
    cases hfile : sceneFileOf id.path input? with
    | error e => exact ⟨m.ingested, rfl⟩
    | ok file =>
      refine ⟨(m.note (attempt ctx id file)).ingested, ?_⟩
      rw [perform_bind_ok (perform_ofExcept _ m), perform_ingestScene]
      rfl
  | _ =>
    refine ⟨m.ingested, ?_⟩
    simp only [complete, perform_ofExcept, Plain.finish]
    cases coerce _ id.path input? <;> rfl

theorem perform_evaluate (read : FieldId → Resolution Value) (n : Node) (id : FieldId) (f : Field)
    {m m' : Memo} {input? : Option Input}
    (h : perform (firstInput root read id.path (n.sources ctx.settings.strictReferences f)) m =
      (.ok input?, m')) :
    ∃ ingested, perform (evaluate ctx root read n id f) m =
      match Plain.finish ctx id f.kind input? with
      | .ok e => (.ok e.value, keepSides { m' with ingested := ingested } id.owner e.sides)
      | .error e => (.error e, { m' with ingested := ingested }) := by
  rw [evaluate_eq, perform_bind_ok h]
  exact perform_complete_eq_finish ctx id f.kind input? m'

end Resolution

namespace Memo.Keeps

theorem ingest {m : Memo} (h : m.Keeps ctx root found busy) (ingested : List Ingestion) :
    Memo.Keeps ctx root { m with ingested := ingested } found busy where
  values := h.values
  sides := h.sides
  underway := h.underway
  sound := h.sound
  idle := h.idle

/-- A field that was under way becomes the newest finding. -/
theorem remember {m : Memo} {id : FieldId} {n : Node} {f : Field} {e : Evaluated}
    (h : m.Keeps ctx root found (id :: busy)) (hbusy : id ∉ busy) (hscalar : id ∈ root.scalars [])
    (hfield : root.field? id = some (n, f))
    (hevaluated : Plain.evaluate ctx root n id f found.read = .ok e) :
    (((Resolution.keepSides m id.owner e.sides).stop id).remember id e.value).Keeps ctx root
      ((id, e) :: found) busy where
  values id' := by
    have hvalue := h.values id'
    rw [Findings.lookup_cons]
    by_cases heq : id' = id
    · simp [Memo.value?, Memo.remember, heq]
    · have hbeq : (id' == id) = false := beq_eq_false_iff_ne.mpr heq
      rw [if_neg heq, ← hvalue, Memo.value?, Memo.remember, List.lookup_cons, hbeq]
      rfl
  sides here name := by
    have hside := Resolution.side?_keepSides m id.owner here e.sides name
    rw [h.sides] at hside
    exact hside
  underway := underway_stop h.underway hbusy
  sound := .cons h.sound (h.idle id List.mem_cons_self) hscalar hfield hevaluated
  idle x hx := by
    have hne : x ≠ id := by
      intro heq
      exact hbusy (heq ▸ hx)
    rw [Findings.lookup_cons, if_neg hne]
    exact h.idle x (List.mem_cons_of_mem _ hx)

end Memo.Keeps

theorem reads_whileUnderway {read : FieldId → Resolution Value} {id : FieldId} {n : Node}
    {f : Field} {m : Memo} (hscene : root.SingleScene) (hread : Reads ctx root (id :: busy) read)
    (hbusy : id ∉ busy) (hscalar : id ∈ root.scalars []) (hfield : root.field? id = some (n, f))
    (hm : m.Keeps ctx root found busy) (hnew : found.lookup id = none) :
    ∃ m' found', Resolution.perform
        (Resolution.whileUnderway id (Resolution.evaluate ctx root read n id f)) m =
          ((Plain.field ctx root busy id).map Evaluated.value, m') ∧
      m'.Keeps ctx root found' busy ∧ found <:+ found' ∧
      ∀ e, Plain.field ctx root busy id = .ok e → found'.lookup id = some e := by
  obtain ⟨m1, found1, hrun, hm1, hsuffix, hagain⟩ :=
    (agrees_firstInput hscene hread id.path
      (n.sources ctx.settings.strictReferences f)).agreesAt found _ (hm.start hnew)
  have heq : Plain.field ctx root busy id =
      Plain.evaluate ctx root n id f (Plain.field ctx root (id :: busy)) := by
    rw [Plain.field, dif_neg hbusy, dif_pos hscalar, hfield]
  rw [Plain.evaluate, Inquiry.bind_apply] at heq
  cases hinput : Plain.firstInput root id.path (n.sources ctx.settings.strictReferences f)
      (Plain.field ctx root (id :: busy)) with
  | error c =>
    -- Nothing is found for the field itself, but what was found on the way stays.
    rw [hinput] at hrun heq
    refine ⟨m1.stop id, found1, ?_, hm1.stop hbusy, hsuffix, ?_⟩
    · rw [heq]
      exact Resolution.perform_whileUnderway_error (Resolution.perform_bind_error hrun)
    · intro e he
      rw [heq] at he
      cases he
  | ok input? =>
    rw [hinput] at hrun heq
    have hvalue : Plain.field ctx root busy id = Plain.finish ctx id f.kind input? := heq
    obtain ⟨ingested, hevaluate⟩ := Resolution.perform_evaluate read n id f hrun
    have hm2 := hm1.ingest ingested
    cases hfinish : Plain.finish ctx id f.kind input? with
    | error c =>
      rw [hfinish] at hevaluate hvalue
      refine ⟨_, found1, ?_, hm2.stop hbusy, hsuffix, ?_⟩
      · rw [hvalue]
        exact Resolution.perform_whileUnderway_error hevaluate
      · intro e he
        rw [hvalue] at he
        cases he
    | ok e =>
      rw [hfinish] at hevaluate hvalue
      -- The new finding is sound because its input can be had from the findings before it.
      have hevaluated : Plain.evaluate ctx root n id f found1.read = .ok e :=
        Inquiry.bind_eq_ok.mpr ⟨input?, hagain input? hinput, hfinish⟩
      refine ⟨_, (id, e) :: found1, ?_, hm2.remember hbusy hscalar hfield hevaluated,
        hsuffix.trans (List.suffix_cons _ _), ?_⟩
      · rw [hvalue]
        exact Resolution.perform_whileUnderway_ok hevaluate
      · intro e' he'
        rw [hvalue] at he'
        cases he'
        rw [Findings.lookup_cons, if_pos rfl]

theorem mem_others_iff {free : List FieldId} (hfree : ∀ x, x ∈ free ↔ x ∈ root.scalars [] ∧ x ∉ busy)
    (id x : FieldId) :
    x ∈ Resolution.others free id ↔ x ∈ root.scalars [] ∧ x ∉ id :: busy := by
  simp only [Resolution.others, List.mem_filter, hfree x, List.mem_cons, not_or]
  simp only [decide_not, Bool.not_eq_eq_eq_not, Bool.not_true, decide_eq_false_iff_not]
  exact ⟨fun h => ⟨h.1.1, h.2, h.1.2⟩, fun h => ⟨⟨h.1, h.2.2⟩, h.2.1⟩⟩

/-- Every field is read as in plain evaluation. -/
theorem reads_resolveAmong (hscene : root.SingleScene) (free : List FieldId)
    (hfree : ∀ id, id ∈ free ↔ id ∈ root.scalars [] ∧ id ∉ busy) :
    Reads ctx root busy (Resolution.resolveAmong ctx root free) := by
  -- The induction is on the number of fields that may still be started.
  induction hn : free.length using Nat.strongRecOn generalizing free busy with
  | _ size ih =>
    intro id found m hm
    rw [Resolution.resolveAmong, Resolution.perform_bind_ok (Resolution.perform_get m), hm.values,
      hm.underway]
    cases hfound : found.lookup id with
    | some e =>
      -- A hit: no field that was found is under way, so evaluation would end the same.
      have hplain := hm.sound.field_eq hm.idle hfound
      rw [hplain]
      refine ⟨m, found, rfl, hm, List.suffix_rfl, ?_⟩
      intro e' he'
      cases he'
      exact hfound
    | none =>
      simp only [Option.map_none]
      by_cases hbusy : id ∈ busy
      · rw [if_pos hbusy, Plain.field, dif_pos hbusy]
        exact ⟨m, found, rfl, hm, List.suffix_rfl, nofun⟩
      · rw [if_neg hbusy]
        by_cases hscalar : id ∈ root.scalars []
        · have hmem : id ∈ free := (hfree id).mpr ⟨hscalar, hbusy⟩
          rw [dif_pos hmem]
          cases hfield : root.field? id with
          | none =>
            rw [Plain.field, dif_neg hbusy, dif_pos hscalar, hfield]
            exact ⟨m, found, rfl, hm, List.suffix_rfl, nofun⟩
          | some p =>
            have hothers := mem_others_iff hfree id
            have hlt := Resolution.length_others_lt hmem
            rw [hn] at hlt
            have hread := ih _ hlt (Resolution.others free id) hothers rfl
            exact reads_whileUnderway hscene hread hbusy hscalar hfield hm hfound
        · have hmem : id ∉ free := fun h => hscalar ((hfree id).mp h).1
          rw [dif_neg hmem, Plain.field, dif_neg hbusy, dif_neg hscalar]
          exact ⟨m, found, rfl, hm, List.suffix_rfl, nofun⟩

theorem reads_resolveField (hscene : root.SingleScene) :
    Reads ctx root [] (Resolution.resolveField ctx root) :=
  reads_resolveAmong hscene _ fun _ => ⟨fun h => ⟨h, List.not_mem_nil⟩, fun h => h.1⟩

end CrowdScenario

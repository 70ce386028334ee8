import CrowdScenario.Proofs.Resolution.Agreement
import CrowdScenario.Proofs.Resolution.Blame

/-!
# Evaluation, move by move

The evaluation of a field as a machine that knows nothing about which fields may still be started.
It stands at the fields that it is in the middle of, each with the sources that are left to it. A
move takes the latest of them one source further, settles it, or starts the field that its source
refers to. No field is started twice, because a field that is started is in the middle of its
evaluation until it has a value, and it keeps the value (`Runs.starts_nodup`).
-/

namespace CrowdScenario

/-- A field in the middle of its evaluation, with the sources that are left to it. -/
structure Frame where
  field : FieldId
  kind : FieldKind
  sources : List Source

structure Evaluation where
  memory : Memo
  frames : List Frame

namespace Evaluation

inductive Move where
  | start (id : FieldId) (s : Evaluation)
  | pass (s : Evaluation)
  | halt (result : Except CompileError Value) (m : Memo)

def busy (s : Evaluation) : List FieldId := s.frames.map Frame.field

def unwind : List FieldId → Memo → Memo
  | [], m => m
  | id :: rest, m => unwind rest (m.stop id)

def fail (s : Evaluation) (e : CompileError) : Move := .halt (.error e) (unwind s.busy s.memory)

def leads? (root : Node) : List Source → Option Node.Target
  | .reference expression _ :: _ => (Reference.parse? expression).bind (root.locate? [])
  | _ => none

def selected? (m : Memo) (t : Node.Target) (v : Value) : Option Value :=
  match t.side? with
  | none => v.select? t.selection
  | some name => (m.side? t.field.owner name).bind fun side => side.select? t.selection

inductive Prospect where
  | input (input? : Option Input)
  /-- A field without a value has to be read first. -/
  | read (id : FieldId)
  | nothing (left : List Source)
  | failure (e : CompileError)

def passOver (path expression : String) (required : Bool) (left : List Source) : Prospect :=
  if required then .failure (.unresolvedReference expression path) else .nothing left

def prospect (root : Node) (m : Memo) (path : String) : List Source → Prospect
  | [] => .input none
  | .given i :: _ => .input (some i)
  | .reference expression required :: left =>
    match Reference.parse? expression with
    | none => .failure (.malformedReference expression path)
    | some reference =>
      match root.locate? [] reference with
      | none => passOver path expression required left
      | some t =>
        match m.value? t.field with
        | none => .read t.field
        | some v =>
          match selected? m t v with
          | some v' => .input (some (.value v'))
          | none => passOver path expression required left

section
variable (ctx : Context) (root : Node) (asked : FieldId)

/-- A field without a value is started, unless the evaluation is in the middle of it. -/
def enter (s : Evaluation) (id : FieldId) : Move :=
  if id ∈ s.busy then s.fail (.cyclicReference id.path)
  else
    match root.field? id with
    | none => s.fail (.unknownField id.name id.owner.path)
    | some (n, f) =>
      .start id ⟨s.memory.start id,
        ⟨id, f.kind, n.sources ctx.settings.strictReferences f⟩ :: s.frames⟩

def settle (m : Memo) (fr : Frame) (rest : List Frame) (input? : Option Input) : Move :=
  match Resolution.perform (Resolution.complete ctx fr.field fr.kind input?) m with
  | (.ok v, m') => .pass ⟨(m'.stop fr.field).remember fr.field v, rest⟩
  | (.error e, m') => .halt (.error e) (unwind (fr.field :: rest.map Frame.field) m')

def advance (m : Memo) (fr : Frame) (rest : List Frame) : Prospect → Move
  | .input input? => settle ctx m fr rest input?
  | .read id => enter ctx root ⟨m, fr :: rest⟩ id
  | .nothing left => .pass ⟨m, { fr with sources := left } :: rest⟩
  | .failure e => fail ⟨m, fr :: rest⟩ e

/-- The next move of an evaluation that is asked for a field. -/
def move : Evaluation → Move
  | ⟨m, []⟩ =>
    match m.value? asked with
    | some v => .halt (.ok v) m
    | none => enter ctx root ⟨m, []⟩ asked
  | ⟨m, fr :: rest⟩ => advance ctx root m fr rest (prospect root m fr.field.path fr.sources)

def reads? : Evaluation → Option FieldId
  | ⟨_, []⟩ => some asked
  | ⟨_, fr :: _⟩ => (leads? root fr.sources).map Node.Target.field

/-- Moves from one state to another, with the fields that are started on the way. -/
inductive Runs : Evaluation → List FieldId → Evaluation → Prop
  | stay (s : Evaluation) : Runs s [] s
  | pass {s s' s'' : Evaluation} {ids : List FieldId} (next : move ctx root asked s = .pass s')
      (rest : Runs s' ids s'') : Runs s ids s''
  | start {s s' s'' : Evaluation} {id : FieldId} {ids : List FieldId}
      (next : move ctx root asked s = .start id s') (rest : Runs s' ids s'') :
      Runs s (id :: ids) s''

def Ends (s : Evaluation) (ids : List FieldId) (result : Except CompileError Value) (m : Memo) :
    Prop :=
  ∃ s', Runs ctx root asked s ids s' ∧ move ctx root asked s' = .halt result m

end

variable {ctx : Context} {root : Node} {asked : FieldId} {s s' s'' : Evaluation} {id : FieldId}
  {ids ids' : List FieldId}

namespace Runs

theorem trans (h : Runs ctx root asked s ids s') (h' : Runs ctx root asked s' ids' s'') :
    Runs ctx root asked s (ids ++ ids') s'' := by
  induction h with
  | stay s => exact h'
  | pass next _ ih => exact .pass next (ih h')
  | start next _ ih => exact .start next (ih h')

theorem onward {last : Evaluation} {result : Except CompileError Value} {m : Memo}
    (h : Runs ctx root asked s ids s') (hlast : Runs ctx root asked s ids' last)
    (hhalt : move ctx root asked last = .halt result m) :
    ∃ behind, Runs ctx root asked s' behind last := by
  induction h generalizing ids' with
  | stay s => exact ⟨ids', hlast⟩
  | pass next _ ih =>
    cases hlast with
    | stay =>
      rw [next] at hhalt
      cases hhalt
    | pass next' rest =>
      rw [next] at next'
      cases next'
      exact ih rest
    | start next' =>
      rw [next] at next'
      cases next'
  | start next _ ih =>
    cases hlast with
    | stay =>
      rw [next] at hhalt
      cases hhalt
    | pass next' =>
      rw [next] at next'
      cases next'
    | start next' rest =>
      rw [next] at next'
      cases next'
      exact ih rest

end Runs

theorem Ends.unique {result result' : Except CompileError Value} {m m' : Memo}
    (h : Ends ctx root asked s ids result m) (h' : Ends ctx root asked s ids' result' m') :
    result = result' ∧ m = m' := by
  obtain ⟨last, hruns, hhalt⟩ := h
  obtain ⟨last', hruns', hhalt'⟩ := h'
  obtain ⟨behind, honward⟩ := hruns.onward hruns' hhalt'
  cases honward with
  | stay =>
    rw [hhalt] at hhalt'
    cases hhalt'
    exact ⟨rfl, rfl⟩
  | pass next =>
    rw [hhalt] at next
    cases next
  | start next =>
    rw [hhalt] at next
    cases next

theorem prospect_eq_read {m : Memo} {path : String} {sources : List Source}
    (h : prospect root m path sources = .read id) :
    (leads? root sources).map Node.Target.field = some id ∧ m.value? id = none := by
  unfold prospect at h
  split at h
  · cases h
  · cases h
  · next expression required left =>
    split at h
    · cases h
    · next reference hparse =>
      split at h
      · rw [passOver] at h
        split at h <;> cases h
      · next t hlocate =>
        split at h
        · next hvalue =>
          cases h
          rw [leads?, hparse, Option.bind_some, hlocate]
          exact ⟨rfl, hvalue⟩
        · split at h
          · cases h
          · rw [passOver] at h
            split at h <;> cases h

theorem prospect_of_leads {m : Memo} {path : String} {sources : List Source} {t : Node.Target}
    (hleads : leads? root sources = some t) (hvalue : m.value? t.field = none) :
    prospect root m path sources = .read t.field := by
  cases sources with
  | nil => cases hleads
  | cons source left =>
    cases source with
    | given i => cases hleads
    | reference expression required =>
      obtain ⟨reference, hparse, hlocate⟩ := Option.bind_eq_some_iff.mp hleads
      rw [prospect, hparse]
      simp only
      rw [hlocate]
      simp only
      rw [hvalue]

theorem prospect_of_value {m : Memo} {path expression : String} {required : Bool}
    {left : List Source} {reference : Reference} {t : Node.Target} {v : Value}
    (hparse : Reference.parse? expression = some reference)
    (hlocate : root.locate? [] reference = some t) (hvalue : m.value? t.field = some v) :
    prospect root m path (.reference expression required :: left) =
      (selected? m t v).elim (passOver path expression required left) fun v' =>
        .input (some (.value v')) := by
  rw [prospect, hparse]
  simp only
  rw [hlocate]
  simp only
  rw [hvalue]
  simp only
  cases selected? m t v <;> rfl

theorem passOver_eq_nothing {path expression : String} {required : Bool} {left left' : List Source}
    (h : passOver path expression required left = .nothing left') : left' = left := by
  rw [passOver] at h
  split at h <;> cases h
  rfl

theorem prospect_eq_nothing {m : Memo} {path : String} {sources left : List Source}
    (h : prospect root m path sources = .nothing left) : left <:+ sources := by
  unfold prospect at h
  split at h
  · cases h
  · cases h
  · next expression required left' =>
    have hpass : passOver path expression required left' = .nothing left := by
      split at h
      · cases h
      · split at h
        · exact h
        · split at h
          · cases h
          · split at h
            · cases h
            · exact h
    rw [passOver_eq_nothing hpass]
    exact List.suffix_cons _ _

theorem prospect_ne_cyclic {m : Memo} {path p : String} {sources : List Source} :
    prospect root m path sources ≠ .failure (.cyclicReference p) := by
  have hpass : ∀ expression required left,
      passOver path expression required left ≠ .failure (.cyclicReference p) := by
    intro expression required left h
    rw [passOver] at h
    split at h <;> cases h
  intro h
  unfold prospect at h
  split at h
  · cases h
  · cases h
  · split at h
    · cases h
    · split at h
      · exact hpass _ _ _ h
      · split at h
        · cases h
        · split at h
          · cases h
          · exact hpass _ _ _ h

/-! ### What a move can do -/

theorem perform_complete_memory (ctx : Context) (id : FieldId) (kind : FieldKind)
    (input? : Option Input) (m : Memo) :
    (Resolution.perform (Resolution.complete ctx id kind input?) m).2.values = m.values ∧
      (Resolution.perform (Resolution.complete ctx id kind input?) m).2.underway = m.underway := by
  cases kind with
  | sceneFile =>
    rw [Resolution.complete, Resolution.perform_bind, Resolution.perform_ofExcept]
    cases sceneFileOf id.path input? with
    | error e => exact ⟨rfl, rfl⟩
    | ok file =>
      simp only [Resolution.ingestScene]
      rw [Resolution.perform_bind_ok (Resolution.perform_modify _ m)]
      cases ctx.ingest (ctx.scenePath file) with
      | error e => exact ⟨rfl, rfl⟩
      | ok records => exact ⟨rfl, rfl⟩
  | _ =>
    rw [Resolution.complete, Resolution.perform_ofExcept]
    · exact ⟨rfl, rfl⟩
    · intro hkind
      cases hkind

theorem enter_cases (ctx : Context) (root : Node) (s : Evaluation) (id : FieldId) :
    (id ∈ s.busy ∧ enter ctx root s id = s.fail (.cyclicReference id.path)) ∨
      (id ∉ s.busy ∧ ∃ n f, root.field? id = some (n, f) ∧
        enter ctx root s id = .start id ⟨s.memory.start id,
          ⟨id, f.kind, n.sources ctx.settings.strictReferences f⟩ :: s.frames⟩) ∨
      enter ctx root s id = s.fail (.unknownField id.name id.owner.path) := by
  rw [enter]
  split
  · next hbusy => exact .inl ⟨hbusy, rfl⟩
  · next hbusy =>
    split
    · exact .inr (.inr rfl)
    · next n f hfield => exact .inr (.inl ⟨hbusy, n, f, hfield, rfl⟩)

theorem settle_cases (ctx : Context) (m : Memo) (fr : Frame) (rest : List Frame)
    (input? : Option Input) :
    ∃ m' : Memo, m'.values = m.values ∧ m'.underway = m.underway ∧
      ((∃ v, settle ctx m fr rest input? =
          .pass ⟨(m'.stop fr.field).remember fr.field v, rest⟩) ∨
        ∃ e, (∀ p, e ≠ .cyclicReference p) ∧ settle ctx m fr rest input? =
          .halt (.error e) (unwind (fr.field :: rest.map Frame.field) m')) := by
  obtain ⟨hvalues, hunderway⟩ := perform_complete_memory ctx fr.field fr.kind input? m
  have hblameless := Resolution.blameless_complete ctx fr.field fr.kind input? m
  refine ⟨_, hvalues, hunderway, ?_⟩
  rw [settle]
  cases hcomplete : Resolution.perform (Resolution.complete ctx fr.field fr.kind input?) m with
  | mk result m' =>
    cases result with
    | ok v => exact .inl ⟨v, rfl⟩
    | error e =>
      rw [hcomplete] at hblameless
      have hother := hblameless e rfl
      refine .inr ⟨e, ?_, rfl⟩
      rintro p rfl
      cases hother

inductive Moves (ctx : Context) (root : Node) (asked : FieldId) (s : Evaluation) (next : Move) :
    Prop
  | answer {v : Value} (done : s.frames = []) (eq : next = .halt (.ok v) s.memory)
  | read {id : FieldId} (reads : reads? root asked s = some id)
      (new : s.memory.value? id = none) (eq : next = enter ctx root s id)
  | settle {fr : Frame} {rest : List Frame} {input? : Option Input}
      (latest : s.frames = fr :: rest) (eq : next = settle ctx s.memory fr rest input?)
  | pass {fr : Frame} {rest : List Frame} {left : List Source} (latest : s.frames = fr :: rest)
      (behind : left <:+ fr.sources)
      (eq : next = .pass ⟨s.memory, { fr with sources := left } :: rest⟩)
  | fail {e : CompileError} (other : ∀ p, e ≠ .cyclicReference p) (eq : next = s.fail e)

theorem moves (ctx : Context) (root : Node) (asked : FieldId) (s : Evaluation) :
    Moves ctx root asked s (move ctx root asked s) := by
  rcases s with ⟨m, _ | ⟨fr, rest⟩⟩
  · rw [move]
    cases hvalue : m.value? asked with
    | some v => exact .answer rfl rfl
    | none => exact .read rfl hvalue rfl
  · rw [move]
    cases hprospect : prospect root m fr.field.path fr.sources with
    | input input? => exact .settle rfl rfl
    | read id =>
      obtain ⟨hreads, hnew⟩ := prospect_eq_read hprospect
      exact .read hreads hnew rfl
    | nothing left => exact .pass rfl (prospect_eq_nothing hprospect) rfl
    | failure e =>
      refine .fail ?_ rfl
      rintro p rfl
      exact prospect_ne_cyclic hprospect

theorem move_eq_enter (hreads : reads? root asked s = some id)
    (hvalue : s.memory.value? id = none) :
    move ctx root asked s = enter ctx root s id := by
  rcases s with ⟨m, _ | ⟨fr, rest⟩⟩
  · cases hreads
    rw [move, show m.value? asked = none from hvalue]
  · obtain ⟨t, hleads, rfl⟩ := Option.map_eq_some_iff.mp hreads
    rw [move, prospect_of_leads hleads hvalue, advance]

theorem move_eq_start (h : move ctx root asked s = .start id s') :
    reads? root asked s = some id ∧ s.memory.value? id = none ∧ id ∉ s.busy ∧
      ∃ n f, root.field? id = some (n, f) ∧
        s' = ⟨s.memory.start id,
          ⟨id, f.kind, n.sources ctx.settings.strictReferences f⟩ :: s.frames⟩ := by
  have hmoves := moves ctx root asked s
  rw [h] at hmoves
  cases hmoves with
  | answer _ heq => cases heq
  | @read id' hreads hnew heq =>
    rcases enter_cases ctx root s id' with ⟨-, henter⟩ | ⟨hbusy, n, f, hfield, henter⟩ | henter
    · rw [henter] at heq
      cases heq
    · rw [henter] at heq
      cases heq
      exact ⟨hreads, hnew, hbusy, n, f, hfield, rfl⟩
    · rw [henter] at heq
      cases heq
  | @settle fr rest input? _ heq =>
    obtain ⟨m', -, -, ⟨v, hsettle⟩ | ⟨e, -, hsettle⟩⟩ := settle_cases ctx s.memory fr rest input?
    all_goals
      rw [hsettle] at heq
      cases heq
  | pass _ _ heq => cases heq
  | fail _ heq => cases heq

theorem move_eq_pass (h : move ctx root asked s = .pass s') :
    ∃ (m : Memo) (fr : Frame) (rest : List Frame), s = ⟨m, fr :: rest⟩ ∧
      ((∃ left, left <:+ fr.sources ∧ s' = ⟨m, { fr with sources := left } :: rest⟩) ∨
        ∃ (m' : Memo) (v : Value), m'.values = m.values ∧ m'.underway = m.underway ∧
          s' = ⟨(m'.stop fr.field).remember fr.field v, rest⟩) := by
  have hmoves := moves ctx root asked s
  rw [h] at hmoves
  rcases s with ⟨m, frames⟩
  cases hmoves with
  | answer _ heq => cases heq
  | @read id' _ _ heq =>
    rcases enter_cases ctx root ⟨m, frames⟩ id' with ⟨-, henter⟩ | ⟨-, n, f, -, henter⟩ | henter
    all_goals
      rw [henter] at heq
      cases heq
  | @settle fr rest input? hlatest heq =>
    cases hlatest
    obtain ⟨m', hvalues, hunderway, ⟨v, hsettle⟩ | ⟨e, -, hsettle⟩⟩ :=
      settle_cases ctx m fr rest input?
    · rw [hsettle] at heq
      cases heq
      exact ⟨m, fr, rest, rfl, .inr ⟨m', v, hvalues, hunderway, rfl⟩⟩
    · rw [hsettle] at heq
      cases heq
  | @pass fr rest left hlatest hbehind heq =>
    cases hlatest
    cases heq
    exact ⟨m, fr, rest, rfl, .inl ⟨left, hbehind, rfl⟩⟩
  | fail _ heq => cases heq

/-- A cycle is reported for a field only where it is read while the evaluation is in its middle. -/
theorem move_eq_cyclic {p : String} {m : Memo}
    (h : move ctx root asked s = .halt (.error (.cyclicReference p)) m) :
    ∃ id, reads? root asked s = some id ∧ id ∈ s.busy ∧ id.path = p := by
  have hmoves := moves ctx root asked s
  rw [h] at hmoves
  cases hmoves with
  | answer _ heq => cases heq
  | @read id hreads _ heq =>
    rcases enter_cases ctx root s id with ⟨hbusy, henter⟩ | ⟨-, n, f, -, henter⟩ | henter
    · rw [henter] at heq
      cases heq
      exact ⟨id, hreads, hbusy, rfl⟩
    · rw [henter] at heq
      cases heq
    · rw [henter] at heq
      cases heq
  | @settle fr rest input? _ heq =>
    obtain ⟨m', -, -, ⟨v, hsettle⟩ | ⟨e, hother, hsettle⟩⟩ :=
      settle_cases ctx s.memory fr rest input?
    · rw [hsettle] at heq
      cases heq
    · rw [hsettle] at heq
      cases heq
      exact absurd rfl (hother p)
  | pass _ _ heq => cases heq
  | fail hother heq =>
    cases heq
    exact absurd rfl (hother p)

/-! ### What every state keeps -/

/-- The evaluation is in the middle of different fields, and none of them has a value. -/
structure Sane (s : Evaluation) : Prop where
  underway : s.memory.underway = s.busy
  nodup : s.busy.Nodup
  idle : ∀ id ∈ s.busy, s.memory.value? id = none

theorem value?_remember (m : Memo) (id id' : FieldId) (v : Value) :
    (m.remember id v).value? id' = if id' = id then some v else m.value? id' := by
  by_cases h : id' = id
  · simp [Memo.value?, Memo.remember, h]
  · have hbeq : (id' == id) = false := beq_eq_false_iff_ne.mpr h
    rw [if_neg h, Memo.value?, Memo.remember, List.lookup_cons, hbeq]
    rfl

theorem Sane.start (h : s.Sane) (next : move ctx root asked s = .start id s') : s'.Sane := by
  obtain ⟨-, hvalue, hbusy, n, f, -, rfl⟩ := move_eq_start next
  refine ⟨congrArg (id :: ·) h.underway, List.nodup_cons.mpr ⟨hbusy, h.nodup⟩, ?_⟩
  intro x hx
  rcases List.mem_cons.mp hx with rfl | hx
  · exact hvalue
  · exact h.idle x hx

theorem Sane.settled {m m' : Memo} {fr : Frame} {rest : List Frame} {v : Value}
    (h : Sane ⟨m, fr :: rest⟩) (hvalues : m'.values = m.values)
    (hunderway : m'.underway = m.underway) :
    Sane ⟨(m'.stop fr.field).remember fr.field v, rest⟩ := by
  obtain ⟨hfield, hrest⟩ := List.nodup_cons.mp h.nodup
  refine ⟨Memo.Keeps.underway_stop (hunderway.trans h.underway) hfield, hrest, ?_⟩
  intro x hx
  have hne : x ≠ fr.field := fun heq => hfield (heq ▸ hx)
  have hidle := h.idle x (List.mem_cons_of_mem _ hx)
  rw [value?_remember, if_neg hne, Memo.value?, Memo.stop, hvalues]
  exact hidle

theorem Sane.pass (h : s.Sane) (next : move ctx root asked s = .pass s') : s'.Sane := by
  obtain ⟨m, fr, rest, rfl, ⟨left, -, rfl⟩ | ⟨m', v, hvalues, hunderway, rfl⟩⟩ := move_eq_pass next
  · exact ⟨h.underway, h.nodup, h.idle⟩
  · exact h.settled hvalues hunderway

theorem Runs.sane (h : Runs ctx root asked s ids s') (hs : s.Sane) : s'.Sane := by
  induction h with
  | stay => exact hs
  | pass next _ ih => exact ih (hs.pass next)
  | start next _ ih => exact ih (hs.start next)

theorem underway_unwind {busy : List FieldId} {m : Memo} (h : m.underway = busy)
    (hnodup : busy.Nodup) : (unwind busy m).underway = [] := by
  induction busy generalizing m with
  | nil => exact h
  | cons id rest ih =>
    obtain ⟨hid, hrest⟩ := List.nodup_cons.mp hnodup
    exact ih (Memo.Keeps.underway_stop h hid) hrest

/-- Where an evaluation halts, nothing is under way any longer. -/
theorem Sane.underway_of_halt {result : Except CompileError Value} {m : Memo} (h : s.Sane)
    (hhalt : move ctx root asked s = .halt result m) : m.underway = [] := by
  have hunwind := underway_unwind h.underway h.nodup
  have hmoves := moves ctx root asked s
  rw [hhalt] at hmoves
  cases hmoves with
  | answer hdone heq =>
    cases heq
    rw [h.underway, busy, hdone]
    rfl
  | @read id _ _ heq =>
    rcases enter_cases ctx root s id with ⟨-, henter⟩ | ⟨-, n, f, -, henter⟩ | henter
    · rw [henter] at heq
      cases heq
      exact hunwind
    · rw [henter] at heq
      cases heq
    · rw [henter] at heq
      cases heq
      exact hunwind
  | @settle fr rest input? hlatest heq =>
    have hbusy : s.busy = fr.field :: rest.map Frame.field := by
      rw [busy, hlatest]
      rfl
    obtain ⟨m', -, hunderway, ⟨v, hsettle⟩ | ⟨e, -, hsettle⟩⟩ :=
      settle_cases ctx s.memory fr rest input?
    · rw [hsettle] at heq
      cases heq
    · rw [hsettle] at heq
      cases heq
      rw [← hbusy]
      exact underway_unwind (hunderway.trans h.underway) h.nodup
  | pass _ _ heq => cases heq
  | fail _ heq =>
    cases heq
    exact hunwind

/-- The evaluation is in the middle of the field, or behind it. -/
def Met (s : Evaluation) (id : FieldId) : Prop := id ∈ s.busy ∨ (s.memory.value? id).isSome

theorem Met.start {x : FieldId} (h : s.Met x) (next : move ctx root asked s = .start id s') :
    s'.Met x := by
  obtain ⟨-, -, -, n, f, -, rfl⟩ := move_eq_start next
  exact h.imp (List.mem_cons_of_mem _) fun hvalue => hvalue

theorem Met.pass {x : FieldId} (h : s.Met x) (next : move ctx root asked s = .pass s') :
    s'.Met x := by
  obtain ⟨m, fr, rest, rfl, ⟨left, -, rfl⟩ | ⟨m', v, hvalues, -, rfl⟩⟩ := move_eq_pass next
  · exact h
  · by_cases heq : x = fr.field
    · refine .inr ?_
      rw [value?_remember, if_pos heq]
      rfl
    · refine h.imp (fun hx => (List.mem_cons.mp hx).resolve_left heq) fun hvalue => ?_
      rw [value?_remember, if_neg heq, Memo.value?, Memo.stop, hvalues]
      exact hvalue

/-- No field is started twice, and none that the evaluation has already met. -/
theorem Runs.starts_nodup (h : Runs ctx root asked s ids s') :
    ids.Nodup ∧ ∀ x ∈ ids, ¬ s.Met x := by
  induction h with
  | stay => exact ⟨List.nodup_nil, nofun⟩
  | pass next _ ih => exact ⟨ih.1, fun x hx hmet => ih.2 x hx (hmet.pass next)⟩
  | @start s s' s'' id ids next _ ih =>
    obtain ⟨-, hvalue, hbusy, n, f, -, hs'⟩ := move_eq_start next
    have hmet : s'.Met id := by
      rw [hs']
      exact .inl List.mem_cons_self
    refine ⟨List.nodup_cons.mpr ⟨fun hid => ih.2 id hid hmet, ih.1⟩, ?_⟩
    intro x hx hx'
    rcases List.mem_cons.mp hx with rfl | hx
    · rcases hx' with hx' | hx'
      · exact hbusy hx'
      · rw [hvalue] at hx'
        cases hx'
    · exact ih.2 x hx (hx'.start next)

end Evaluation
end CrowdScenario

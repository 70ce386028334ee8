import CrowdScenario.Proofs.Encoding.Invariants
import CrowdScenario.Proofs.Resolution.Machine

/-!
# Ingestions in memory

A scene that was ingested has a value from then on, so that its field is not started again. The log
of a tree never has a field behind a success of its own (`Memo.Thrifty`), whatever is asked of the
tree and whatever the surroundings are each time. What one operation adds to the log are successes,
and at its end perhaps a failure, with which the operation fails.
-/

namespace CrowdScenario

namespace Resolution

/-- What the completion of a field adds to the log, by its kind and by what it ends in. -/
inductive Logs (ctx : Context) (id : FieldId) (kind : FieldKind) :
    Except CompileError Value → List Ingestion → Prop
  | plain {result} (other : kind ≠ .sceneFile) : Logs ctx id kind result []
  | unnamed {e} : Logs ctx id kind (.error e) []
  | found {file} (scene : kind = .sceneFile) :
      Logs ctx id kind (.ok (.text file)) [⟨id, ctx.scenePath file, true⟩]
  | missed {file e} (scene : kind = .sceneFile) :
      Logs ctx id kind (.error e) [⟨id, ctx.scenePath file, false⟩]

theorem perform_complete {ctx : Context} {id : FieldId} {kind : FieldKind} {input? : Option Input}
    {m m' : Memo} {result : Except CompileError Value}
    (h : perform (complete ctx id kind input?) m = (result, m')) :
    m'.values = m.values ∧ m'.underway = m.underway ∧
      ∃ added, Logs ctx id kind result added ∧ m'.ingested = added ++ m.ingested := by
  obtain ⟨hvalues, hunderway⟩ := Evaluation.perform_complete_memory ctx id kind input? m
  rw [h] at hvalues hunderway
  refine ⟨hvalues, hunderway, ?_⟩
  by_cases hkind : kind = .sceneFile
  · rw [hkind, complete, perform_bind, perform_ofExcept] at h
    cases hfile : sceneFileOf id.path input? with
    | error e =>
      rw [hfile] at h
      cases h
      exact ⟨[], .unnamed, rfl⟩
    | ok file =>
      rw [hfile] at h
      dsimp only at h
      rw [ingestScene, perform_bind_ok (perform_modify _ m)] at h
      cases hresult : ctx.ingest (ctx.scenePath file) with
      | error e =>
        rw [hresult] at h
        cases h
        exact ⟨[_], .missed hkind, rfl⟩
      | ok records =>
        rw [hresult] at h
        cases h
        exact ⟨[_], .found hkind, rfl⟩
  · have hplain : complete ctx id kind input? = ofExcept (coerce kind id.path input?) := by
      cases kind with
      | sceneFile => exact absurd rfl hkind
      | _ => rfl
    rw [hplain, perform_ofExcept] at h
    cases h
    exact ⟨[], .plain hkind, rfl⟩

end Resolution

def Ingestion.Spares (earlier later : Ingestion) : Prop :=
  earlier.succeeded = true → later.field ≠ earlier.field

theorem Ingestion.length_le_of_spares {id : FieldId} {log : List Ingestion}
    (hspared : log.Pairwise fun later earlier => earlier.Spares later)
    (hfields : ∀ i ∈ log, i.field = id) (hsucceeded : ∀ i ∈ log.tail, i.succeeded = true) :
    log.length ≤ 1 := by
  match log with
  | [] => exact Nat.zero_le 1
  | [_] => exact Nat.le_refl 1
  | later :: earlier :: rest =>
    have hlater := hfields later List.mem_cons_self
    have hearlier := hfields earlier (List.mem_cons_of_mem _ List.mem_cons_self)
    have hspares := (List.pairwise_cons.mp hspared).1 earlier List.mem_cons_self
    exact absurd (hlater.trans hearlier.symm) (hspares (hsucceeded earlier List.mem_cons_self))

namespace Memo

open Resolution

/-- Only scenes are ingested, each at most once with success: then it has a value, and it is not
under way again. -/
structure Thrifty (root : Node) (busy : List FieldId) (m : Memo) : Prop where
  underway : m.underway = busy
  nodup : busy.Nodup
  idle : ∀ id ∈ busy, m.value? id = none
  scenes : ∀ i ∈ m.ingested, root.isScene i.field = true
  valued : ∀ i ∈ m.ingested, i.succeeded = true → m.value? i.field ≠ none
  spared : m.ingested.Pairwise fun later earlier => earlier.Spares later

namespace Thrifty

variable {ctx : Context} {root : Node} {busy : List FieldId} {m m' : Memo} {id : FieldId}
  {kind : FieldKind} {added : List Ingestion}

theorem empty : Thrifty root [] .empty where
  underway := rfl
  nodup := .nil
  idle := nofun
  scenes := nofun
  valued := nofun
  spared := .nil

theorem start (h : m.Thrifty root busy) (hvalue : m.value? id = none) (hid : id ∉ m.underway) :
    (m.start id).Thrifty root (id :: busy) where
  underway := congrArg (id :: ·) h.underway
  nodup := by
    rw [h.underway] at hid
    exact List.nodup_cons.mpr ⟨hid, h.nodup⟩
  idle x hx := by
    obtain rfl | hx := List.mem_cons.mp hx
    · exact hvalue
    · exact h.idle x hx
  scenes := h.scenes
  valued := h.valued
  spared := h.spared

theorem stop (h : m.Thrifty root (id :: busy)) : (m.stop id).Thrifty root busy where
  underway := Keeps.underway_stop h.underway (List.nodup_cons.mp h.nodup).1
  nodup := (List.nodup_cons.mp h.nodup).2
  idle x hx := h.idle x (List.mem_cons_of_mem _ hx)
  scenes := h.scenes
  valued := h.valued
  spared := h.spared

theorem spares (h : m.Thrifty root (id :: busy)) {i : Ingestion} (hi : i.field = id) :
    ∀ earlier ∈ m.ingested, earlier.Spares i := by
  intro earlier hmem hsucceeded hsame
  have hvalue := h.valued earlier hmem hsucceeded
  rw [← hsame, hi] at hvalue
  exact hvalue (h.idle id List.mem_cons_self)

theorem scenes_append (h : m.Thrifty root busy) {result : Except CompileError Value}
    (hlogs : Logs ctx id kind result added) (hscene : kind = .sceneFile → root.isScene id = true) :
    ∀ i ∈ added ++ m.ingested, root.isScene i.field = true := by
  intro i hi
  obtain hi | hi := List.mem_append.mp hi
  · cases hlogs with
    | plain => cases hi
    | unnamed => cases hi
    | found hkind =>
      cases List.mem_singleton.mp hi
      exact hscene hkind
    | missed hkind =>
      cases List.mem_singleton.mp hi
      exact hscene hkind
  · exact h.scenes i hi

theorem spared_append (h : m.Thrifty root (id :: busy)) {result : Except CompileError Value}
    (hlogs : Logs ctx id kind result added) :
    (added ++ m.ingested).Pairwise fun later earlier => earlier.Spares later := by
  cases hlogs with
  | plain => exact h.spared
  | unnamed => exact h.spared
  | found => exact List.pairwise_cons.mpr ⟨h.spares rfl, h.spared⟩
  | missed => exact List.pairwise_cons.mpr ⟨h.spares rfl, h.spared⟩

theorem fail (h : m.Thrifty root (id :: busy)) {e : CompileError}
    (hlogs : Logs ctx id kind (.error e) added)
    (hscene : kind = .sceneFile → root.isScene id = true) (hvalues : m'.values = m.values)
    (hunderway : m'.underway = m.underway) (hingested : m'.ingested = added ++ m.ingested) :
    m'.Thrifty root (id :: busy) where
  underway := hunderway.trans h.underway
  nodup := h.nodup
  idle x hx := by
    rw [value?, hvalues]
    exact h.idle x hx
  scenes := by
    rw [hingested]
    exact h.scenes_append hlogs hscene
  valued i hi hsucceeded := by
    rw [value?, hvalues]
    rw [hingested] at hi
    obtain hi | hi := List.mem_append.mp hi
    · cases hlogs with
      | plain => cases hi
      | unnamed => cases hi
      | missed =>
        cases List.mem_singleton.mp hi
        cases hsucceeded
    · exact h.valued i hi hsucceeded
  spared := by
    rw [hingested]
    exact h.spared_append hlogs

theorem settle (h : m.Thrifty root (id :: busy)) {v : Value}
    (hlogs : Logs ctx id kind (.ok v) added)
    (hscene : kind = .sceneFile → root.isScene id = true) (hvalues : m'.values = m.values)
    (hunderway : m'.underway = m.underway) (hingested : m'.ingested = added ++ m.ingested) :
    ((m'.stop id).remember id v).Thrifty root busy := by
  obtain ⟨hnew, hnodup⟩ := List.nodup_cons.mp h.nodup
  have hvalue : ∀ x, ((m'.stop id).remember id v).value? x =
      if x = id then some v else m.value? x := by
    intro x
    rw [Evaluation.value?_remember]
    show (if x = id then some v else m'.values.lookup x) = _
    rw [hvalues]
    rfl
  refine ⟨Keeps.underway_stop (hunderway.trans h.underway) hnew, hnodup, ?_, ?_, ?_, ?_⟩
  · intro x hx
    have hother : x ≠ id := by
      intro heq
      rw [heq] at hx
      exact hnew hx
    rw [hvalue, if_neg hother]
    exact h.idle x (List.mem_cons_of_mem _ hx)
  · show ∀ i ∈ m'.ingested, _
    rw [hingested]
    exact h.scenes_append hlogs hscene
  · intro i hi hsucceeded
    have hlog : i ∈ m'.ingested := hi
    rw [hvalue]
    by_cases hown : i.field = id
    · simp [hown]
    · rw [if_neg hown]
      rw [hingested] at hlog
      obtain hlog | hlog := List.mem_append.mp hlog
      · cases hlogs with
        | plain => cases hlog
        | found =>
          cases List.mem_singleton.mp hlog
          exact absurd rfl hown
      · exact h.valued i hlog hsucceeded
  · show m'.ingested.Pairwise _
    rw [hingested]
    exact h.spared_append hlogs

/-- A field is ingested with success at most once. -/
theorem once (h : m.Thrifty root busy) (id : FieldId) :
    (m.ingested.filter fun i => decide (i.field = id) && i.succeeded).length ≤ 1 := by
  have hown : ∀ i ∈ m.ingested.filter fun i => decide (i.field = id) && i.succeeded,
      i.field = id ∧ i.succeeded = true :=
    fun i hi => by simpa using (List.mem_filter.mp hi).2
  exact Ingestion.length_le_of_spares (h.spared.filter _) (fun i hi => (hown i hi).1)
    fun i hi => (hown i (List.mem_of_mem_tail hi)).2

end Thrifty

/-! ### What is added to the log -/

/-- Successes were added to an older log. -/
structure Succeeding (root : Node) (old : List Ingestion) (busy : List FieldId) (m : Memo) : Prop
    where
  thrifty : m.Thrifty root busy
  added : ∃ new, m.ingested = new ++ old ∧ ∀ i ∈ new, i.succeeded = true

/-- Successes were added to an older log, and at the end perhaps a failure. -/
structure Ending (root : Node) (old : List Ingestion) (busy : List FieldId) (m : Memo) : Prop where
  thrifty : m.Thrifty root busy
  added : ∃ new, m.ingested = new ++ old ∧ ∀ i ∈ new.tail, i.succeeded = true

/-- Scenes with a value have the name of a file, and were ingested from where the file is. -/
def Located (ctx : Context) (root : Node) (m : Memo) : Prop :=
  ∀ id v, root.isScene id = true → m.value? id = some v →
    ∃ file, v = .text file ∧ ⟨id, ctx.scenePath file, true⟩ ∈ m.ingested

end Memo

namespace Resolution

variable {ctx : Context} {root n : Node} {id : FieldId} {f : Field} {kind : FieldKind}
  {added : List Ingestion}

theorem Logs.succeeded {v : Value} (h : Logs ctx id kind (.ok v) added) :
    ∀ i ∈ added, i.succeeded = true := by
  cases h with
  | plain => exact List.forall_mem_nil _
  | found => exact List.forall_mem_singleton.mpr rfl

theorem Logs.length_le {result : Except CompileError Value} (h : Logs ctx id kind result added) :
    added.length ≤ 1 := by
  cases h with
  | plain => exact Nat.zero_le 1
  | unnamed => exact Nat.zero_le 1
  | found => exact Nat.le_refl 1
  | missed => exact Nat.le_refl 1

theorem isScene_of_kind (hfield : root.field? id = some (n, f)) (hkind : f.kind = .sceneFile) :
    root.isScene id = true := Node.isScene_eq_true.mpr ⟨n, f, hfield, hkind⟩

theorem invariant_ingestions (ctx : Context) (root : Node) (old : List Ingestion) :
    Invariant ctx root (fun busy m => m.Succeeding root old busy)
      (fun busy m => m.Ending root old busy) where
  weak h := by
    obtain ⟨new, hnew, hsucceeded⟩ := h.added
    exact ⟨h.thrifty, new, hnew, fun i hi => hsucceeded i (List.mem_of_mem_tail hi)⟩
  start _ h hvalue hbusy := ⟨h.thrifty.start hvalue hbusy, h.added⟩
  stop h := ⟨h.thrifty.stop, h.added⟩
  value hfield h hrun := by
    obtain ⟨hvalues, hunderway, added, hlogs, hingested⟩ := perform_complete hrun
    obtain ⟨new, hnew, hsucceeded⟩ := h.added
    refine ⟨h.thrifty.settle hlogs (isScene_of_kind hfield) hvalues hunderway hingested,
      added ++ new, ?_, fun i hi => ?_⟩
    · rw [List.append_assoc, ← hnew]
      exact hingested
    · obtain hi | hi := List.mem_append.mp hi
      · exact hlogs.succeeded i hi
      · exact hsucceeded i hi
  failure hfield h hrun := by
    obtain ⟨hvalues, hunderway, added, hlogs, hingested⟩ := perform_complete hrun
    obtain ⟨new, hnew, hsucceeded⟩ := h.added
    refine ⟨h.thrifty.fail hlogs (isScene_of_kind hfield) hvalues hunderway hingested,
      added ++ new, ?_, fun i hi => hsucceeded i ?_⟩
    · rw [List.append_assoc, ← hnew]
      exact hingested
    · have hlength := hlogs.length_le
      match added with
      | [] => exact List.mem_of_mem_tail hi
      | [_] => exact hi

theorem invariant_located (ctx : Context) (root : Node) :
    Invariant ctx root (fun _ m => m.Located ctx root) (fun _ m => m.Located ctx root) where
  weak h := h
  start _ h _ _ := h
  stop h := h
  value {busy m m' id n f input? v} hfield h hrun := by
    obtain ⟨hvalues, -, added, hlogs, hingested⟩ := perform_complete hrun
    intro x w hscene hvalue
    show ∃ file, w = .text file ∧ _ ∈ m'.ingested
    rw [Evaluation.value?_remember] at hvalue
    rw [hingested]
    by_cases hown : x = id
    · rw [if_pos hown] at hvalue
      cases hvalue
      rw [hown] at hscene ⊢
      cases hlogs with
      | plain hother =>
        obtain ⟨n', f', hfield', hkind⟩ := Node.isScene_eq_true.mp hscene
        rw [hfield] at hfield'
        cases hfield'
        exact absurd hkind hother
      | found => exact ⟨_, rfl, List.mem_append_left _ (List.mem_singleton_self _)⟩
    · rw [if_neg hown] at hvalue
      have hvalue' : m'.values.lookup x = some w := hvalue
      rw [hvalues] at hvalue'
      obtain ⟨file, hw, hmem⟩ := h x w hscene hvalue'
      exact ⟨file, hw, List.mem_append_right _ hmem⟩
  failure hfield h hrun := by
    obtain ⟨hvalues, -, added, -, hingested⟩ := perform_complete hrun
    intro x w hscene hvalue
    rw [Memo.value?, hvalues] at hvalue
    rw [hingested]
    obtain ⟨file, hw, hmem⟩ := h x w hscene hvalue
    exact ⟨file, hw, List.mem_append_right _ hmem⟩

end Resolution

namespace Operation

open Resolution

variable {root : Node}

/-- The memory that operations leave behind, each of which has surroundings of its own. -/
def history (root : Node) : List (Context × Operation) → Memo → Memo
  | [], m => m
  | (ctx, op) :: rest, m => history root rest (perform (op.run ctx root) m).2

theorem thrifty_run (ctx : Context) (op : Operation) {m : Memo} (hm : m.Thrifty root []) :
    (perform (op.run ctx root) m).2.Thrifty root [] := by
  have hupholds := upholds_run (invariant_ingestions ctx root m.ingested) [] op
  have hstart : m.Succeeding root m.ingested [] := ⟨hm, [], rfl, List.forall_mem_nil _⟩
  cases hrun : perform (op.run ctx root) m with
  | mk result m' =>
    cases result with
    | ok answer => exact (hupholds.value hstart hrun).thrifty
    | error e => exact (hupholds.failure hstart hrun).thrifty

theorem thrifty_history (steps : List (Context × Operation)) {m : Memo} (hm : m.Thrifty root []) :
    (history root steps m).Thrifty root [] := by
  induction steps generalizing m with
  | nil => exact hm
  | cons step rest ih => exact ih (thrifty_run step.1 step.2 hm)

end Operation

end CrowdScenario

import CrowdScenario.Proofs.Resolution.Cycles
import Mathlib

/-!
# Questions end

A question to a tree is about one field at most. Its evaluation ends, because it starts no field
twice, and it fails for a cycle exactly if it comes back to a field that it is in the middle of
(`Question.perform_ends`). This is so for every tree, whatever its memory holds, and whether
references must lead somewhere or not.
-/

namespace CrowdScenario

open Evaluation Relation

/-- A question that is about one field at most. -/
inductive Question where
  | resolve (here : Address) (name : String)
  | lookup (here : Address) (name : String)
  | tryResolve (expression : String)

namespace Question

def run (ctx : Context) (root : Node) : Question → Resolution (Option Value)
  | resolve here name =>
    match root.at? here with
    | none => return none
    | some n => do
      let v ← Resolution.resolve ctx root here n.schema name
      return some v
  | lookup here name =>
    match root.at? here with
    | none => return none
    | some n => Resolution.lookup ctx root here n.schema name
  | tryResolve expression => Resolution.resolveReference ctx root expression

def target? (root : Node) : Question → Option Node.Target
  | resolve here name =>
    (root.at? here).bind fun n => (n.schema.field? name).bind fun f =>
      if f.kind.isNested then none else some ⟨⟨here, name⟩, none, []⟩
  | lookup here name => (root.at? here).bind fun n => Node.target? n.schema here name []
  | tryResolve expression => (Reference.parse? expression).bind (root.locate? [])

variable {ctx : Context} {root : Node} {q : Question} {t : Node.Target}

theorem holdsValue_of_target? (h : q.target? root = some t) : root.HoldsValue t.field := by
  cases q with
  | resolve here name =>
    obtain ⟨n, hn, hfield⟩ := Option.bind_eq_some_iff.mp h
    obtain ⟨f, hf, hplain⟩ := Option.bind_eq_some_iff.mp hfield
    split at hplain
    · cases hplain
    · next hnested =>
      cases hplain
      exact ⟨n, f, Node.field?_eq_some.mpr ⟨hn, hf⟩, by simpa using hnested⟩
  | lookup here name =>
    obtain ⟨n, hn, htarget⟩ := Option.bind_eq_some_iff.mp h
    exact Node.holdsValue_of_target? hn htarget
  | tryResolve expression =>
    obtain ⟨reference, -, hlocate⟩ := Option.bind_eq_some_iff.mp h
    exact Node.holdsValue_of_locate? rfl hlocate

theorem run_eq (h : q.target? root = some t) :
    q.run ctx root = Resolution.readTarget (Resolution.resolveField ctx root) t := by
  cases q with
  | resolve here name =>
    obtain ⟨n, hn, hfield⟩ := Option.bind_eq_some_iff.mp h
    obtain ⟨f, hf, hplain⟩ := Option.bind_eq_some_iff.mp hfield
    split at hplain
    · cases hplain
    · next hnested =>
      cases hplain
      rw [run, hn]
      simp only
      rw [Resolution.resolve, hf]
      simp only
      rw [if_neg hnested]
      rfl
  | lookup here name =>
    obtain ⟨n, hn, htarget⟩ := Option.bind_eq_some_iff.mp h
    rw [run, hn]
    simp only
    rw [Resolution.lookup, htarget]
  | tryResolve expression =>
    obtain ⟨reference, hparse, hlocate⟩ := Option.bind_eq_some_iff.mp h
    rw [run, Resolution.resolveReference, Resolution.follow, hparse]
    simp only
    rw [hlocate]

theorem perform_run_of_none (ctx : Context) (h : q.target? root = none) (m : Memo) :
    (Resolution.perform (q.run ctx root) m).2 = m ∧
      ∀ p, (Resolution.perform (q.run ctx root) m).1 ≠ .error (.cyclicReference p) := by
  cases q with
  | resolve here name =>
    rw [run]
    cases hn : root.at? here with
    | none => exact ⟨rfl, fun p hp => by cases hp⟩
    | some n =>
      rw [target?, hn, Option.bind_some] at h
      simp only [Resolution.resolve]
      cases hf : n.schema.field? name with
      | none => exact ⟨rfl, fun p hp => by cases hp⟩
      | some f =>
        rw [hf, Option.bind_some] at h
        split at h
        · next hnested =>
          simp only [if_pos hnested]
          exact ⟨rfl, fun p hp => by cases hp⟩
        · cases h
  | lookup here name =>
    rw [run]
    cases hn : root.at? here with
    | none => exact ⟨rfl, fun p hp => by cases hp⟩
    | some n =>
      rw [target?, hn, Option.bind_some] at h
      simp only [Resolution.lookup, h]
      exact ⟨rfl, fun p hp => by cases hp⟩
  | tryResolve expression =>
    rw [run, Resolution.resolveReference, Resolution.follow]
    cases hparse : Reference.parse? expression with
    | none => exact ⟨rfl, fun p hp => by cases hp⟩
    | some reference =>
      rw [target?, hparse, Option.bind_some] at h
      simp only [h]
      exact ⟨rfl, fun p hp => by cases hp⟩

theorem perform_readTarget (read : FieldId → Resolution Value) (t : Node.Target) (m : Memo) :
    Resolution.perform (Resolution.readTarget read t) m =
      ((Resolution.perform (read t.field) m).1.map
          (selected? (Resolution.perform (read t.field) m).2 t),
        (Resolution.perform (read t.field) m).2) := by
  rw [Resolution.readTarget, Resolution.perform_bind]
  cases Resolution.perform (read t.field) m with
  | mk result m' =>
    cases result with
    | error e => rfl
    | ok v =>
      cases hside : t.side? with
      | none => simp [selected?, hside, Resolution.perform_pure, Except.map]
      | some name =>
        simp only
        rw [Resolution.perform_bind_ok (Resolution.perform_get m')]
        simp [selected?, hside, Resolution.perform_pure, Except.map]

/-- A question ends, with nothing under way. Each field is started once at most; a cycle is reported
exactly for a field that the evaluation comes back to, which it does exactly if something that is
read in turn for what is asked is read in turn for itself. So no cycle is reported where nothing
refers to itself in turn. -/
theorem perform_ends (ctx : Context) (root : Node) (q : Question) {m m' : Memo}
    {answer : Except CompileError (Option Value)} (hm : m.underway = [])
    (hrun : Resolution.perform (q.run ctx root) m = (answer, m')) :
    m'.underway = [] ∧
    (q.target? root = none → m' = m ∧ ∀ p, answer ≠ .error (.cyclicReference p)) ∧
    ∀ t, q.target? root = some t →
      (∃ starts result, Ends ctx root t.field ⟨m, []⟩ starts result m' ∧
        answer = result.map (selected? m' t) ∧ starts.Nodup ∧ ∀ id ∈ starts, id ∈ root.scalars []) ∧
      (∀ p, answer = .error (.cyclicReference p) ↔
        ∃ id, ComesBack ctx root t.field ⟨m, []⟩ id ∧ id.path = p) ∧
      ((∃ p, answer = .error (.cyclicReference p)) ↔
        ∃ id, ReflTransGen (ReadsFor ctx root t.field ⟨m, []⟩) t.field id ∧
          TransGen (ReadsFor ctx root t.field ⟨m, []⟩) id id) ∧
      ((∀ id, ReflTransGen (Refers ctx root) t.field id → ¬ TransGen (Refers ctx root) id id) →
        ∀ p, answer ≠ .error (.cyclicReference p)) := by
  have hsane : Sane ⟨m, []⟩ := ⟨hm, List.nodup_nil, nofun⟩
  cases htarget : q.target? root with
  | none =>
    have hnothing := perform_run_of_none ctx htarget m
    rw [hrun] at hnothing
    have hmemory : m' = m := hnothing.1
    exact ⟨hmemory ▸ hm, fun _ => ⟨hmemory, hnothing.2⟩, nofun⟩
  | some t =>
    have hslot := holdsValue_of_target? htarget
    obtain ⟨starts, hends⟩ := ends_resolveField ctx hslot hm
    rw [run_eq htarget, perform_readTarget] at hrun
    cases hperform : Resolution.perform (Resolution.resolveField ctx root t.field) m with
    | mk result m'' =>
      rw [hperform] at hrun hends
      cases hrun
      have hcyclic : ∀ p, result.map (selected? m'' t) = .error (.cyclicReference p) ↔
          ∃ id, ComesBack ctx root t.field ⟨m, []⟩ id ∧ id.path = p := by
        intro p
        rw [← hends.cyclic_iff hsane p]
        cases result <;> simp [Except.map]
      have hcycle : (∃ p, result.map (selected? m'' t) = .error (.cyclicReference p)) ↔
          ∃ id, ReflTransGen (ReadsFor ctx root t.field ⟨m, []⟩) t.field id ∧
            TransGen (ReadsFor ctx root t.field ⟨m, []⟩) id id := by
        rw [← comesBack_iff hslot hm hends]
        simp only [hcyclic]
        exact ⟨fun ⟨_, id, hback, _⟩ => ⟨id, hback⟩, fun ⟨id, hback⟩ => ⟨_, id, hback, rfl⟩⟩
      obtain ⟨last, hruns, hhalt⟩ := hends
      refine ⟨(hruns.sane hsane).underway_of_halt hhalt, nofun, ?_⟩
      intro t' ht'
      cases ht'
      refine ⟨⟨starts, result, ⟨last, hruns, hhalt⟩, rfl, hruns.starts_nodup.1, ?_⟩, hcyclic,
        hcycle, ?_⟩
      · exact fun id hid => (hruns.holdsValue hslot id hid).mem_scalars
      · intro hacyclic p hp
        obtain ⟨id, horigin, hturn⟩ := hcycle.mp ⟨p, hp⟩
        have hrefers : ReadsFor ctx root t.field ⟨m, []⟩ ≤ Refers ctx root := fun _ _ h => h.refers
        exact hacyclic id (ReflTransGen.mono hrefers _ _ horigin)
          (TransGen.mono hrefers _ _ hturn)

namespace Turning

/-- Two texts, each of which is said to be the other. -/
def schema : Schema where
  name := Schema.rootName
  owner := none
  fields := [⟨"first", .text, some (.reference "ref:second"), .skip⟩,
    ⟨"second", .text, some (.reference "ref:first"), .skip⟩]
  names_nodup := by decide
  owner_of_emission := by decide

def tree : Node := ⟨schema, none, [], []⟩

def surroundings : Context := ⟨.standard, none, fun _ => .ok []⟩

end Turning

open Turning in
theorem perform_ends_turning :
    (Resolution.perform ((lookup [] "first").run surroundings tree) .empty).1 =
        .error (.cyclicReference "first") ∧
      (∃ id, ComesBack surroundings tree ⟨[], "first"⟩ ⟨.empty, []⟩ id ∧ id.path = "first") ∧
      ∃ id, ReflTransGen (ReadsFor surroundings tree ⟨[], "first"⟩ ⟨.empty, []⟩) ⟨[], "first"⟩ id ∧
        TransGen (ReadsFor surroundings tree ⟨[], "first"⟩ ⟨.empty, []⟩) id id := by
  have hanswer : (Resolution.perform ((lookup [] "first").run surroundings tree) .empty).1 =
      .error (.cyclicReference "first") := by
    cbv
  have hends := perform_ends surroundings tree (lookup [] "first") (m := .empty) rfl rfl
  obtain ⟨-, hcyclic, hcycle, -⟩ := hends.2.2 ⟨⟨[], "first"⟩, none, []⟩ (by cbv)
  exact ⟨hanswer, (hcyclic "first").mp hanswer, hcycle.mp ⟨"first", hanswer⟩⟩

end Question
end CrowdScenario

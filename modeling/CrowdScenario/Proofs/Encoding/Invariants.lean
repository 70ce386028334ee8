import CrowdScenario.Proofs.Encoding.Failures
import CrowdScenario.Proofs.Resolution.History
import CrowdScenario.Proofs.Resolution.Invariants

/-!
# Invariants of encodings and operations

An encoder touches memory only to resolve. So an invariant of resolution is kept by encodings, by
compilations and by everything else that can be done with a tree.
-/

namespace CrowdScenario

open Resolution

variable {ctx : Context} {root : Node} {P Q : List FieldId → Memo → Prop}

namespace Encoding

theorem upholds_step (h : Invariant ctx root P Q) (busy : List FieldId) (s : Step) (w : Writer) :
    Upholds (P busy) (Q busy) ((s.run ctx root).run w) := by
  cases s with
  | field here schema f =>
    rw [Step.run, run_encodeField]
    refine (h.resolve busy here schema f.name).bind fun v => ?_
    exact .still (fun _ => h.weak) (perform_writeValue_memory schema f _ v w)
  | distribution here schema slot =>
    rw [Step.run, run_encodeDistribution]
    refine (h.distribution busy here schema).bind fun d => ?_
    exact .still (fun _ => h.weak) fun m => by rw [perform_put]

theorem upholds_runAll (h : Invariant ctx root P Q) (busy : List FieldId) (ss : List Step)
    (w : Writer) : Upholds (P busy) (Q busy) ((runAll ctx root ss).run w) := by
  induction ss generalizing w with
  | nil => exact .pure _
  | cons s ss ih =>
    rw [runAll, StateT.run_bind]
    exact (upholds_step h busy s w).bind fun p => ih p.2

theorem upholds_encodeNode (h : Invariant ctx root P Q) (busy : List FieldId) (here : Address)
    (n : Node) (w : Writer) :
    Upholds (P busy) (Q busy) ((encodeNode ctx root here n).run w) := by
  rw [encodeNode_eq_runAll]
  exact upholds_runAll h busy (steps here n) w

end Encoding

theorem Compilation.upholds_encode (h : Invariant ctx root P Q) (busy : List FieldId) :
    Upholds (P busy) (Q busy) (encode ctx root) := by
  refine (Encoding.upholds_encodeNode h busy [] root .empty).bind fun p => ?_
  exact .pure _

namespace Operation

theorem upholds_inSection {A B : Memo → Prop} {here : Address} {f : Node → Resolution Answer}
    (h : ∀ n, Upholds A B (f n)) : Upholds A B (inSection root here f) := by
  unfold inSection
  cases root.at? here with
  | none => exact .pure _
  | some n => exact h n

theorem upholds_inDistribution {A B : Memo → Prop} {here : Address}
    {f : Schema → Slot → Resolution Answer} (h : ∀ schema slot, Upholds A B (f schema slot)) :
    Upholds A B (inDistribution root here f) := by
  refine upholds_inSection fun n => ?_
  cases n.slot? with
  | none => exact .pure _
  | some slot => exact h n.schema slot

theorem upholds_run (h : Invariant ctx root P Q) (busy : List FieldId) (op : Operation) :
    Upholds (P busy) (Q busy) (op.run ctx root) := by
  cases op with
  | resolve here name =>
    exact upholds_inSection fun n => (h.resolve busy here n.schema name).bind fun _ => .pure _
  | lookup here name =>
    exact upholds_inSection fun n => (h.lookup busy here n.schema name).bind fun _ => .pure _
  | tryResolve expression => exact (h.resolveReference busy expression).bind fun _ => .pure _
  | mustResolve expression => exact (h.requireReference busy expression).bind fun _ => .pure _
  | kind here =>
    simp only [run]
    refine upholds_inDistribution fun schema slot => ?_
    exact (h.distributionKind busy here schema).bind fun _ => .pure _
  | value here =>
    simp only [run]
    refine upholds_inDistribution fun schema slot => ?_
    exact (h.distribution busy here schema).bind fun _ => .pure _
  | write here w =>
    simp only [run]
    refine upholds_inDistribution fun schema slot => ?_
    have hstep := Encoding.upholds_step h busy (.distribution here schema slot) w
    exact hstep.bind fun _ => .pure _
  | encode here w =>
    exact upholds_inSection fun n =>
      (Encoding.upholds_encodeNode h busy here n w).bind fun _ => .pure _

end Operation

end CrowdScenario

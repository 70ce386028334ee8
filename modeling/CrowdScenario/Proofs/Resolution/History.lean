import CrowdScenario.Proofs.Encoding.Agreement
import Mathlib

/-!
# Operations on a tree after other operations

A tree keeps its memory from one operation to the next, whether they succeed or fail. What happened
before makes no difference: each operation ends as on a fresh tree, which is how plain evaluation ends
it (`perform_after`).
-/

namespace CrowdScenario

inductive Operation where
  | resolve (here : Address) (name : String)
  | lookup (here : Address) (name : String)
  | tryResolve (expression : String)
  | mustResolve (expression : String)
  /-- The kind of the distribution at an address. -/
  | kind (here : Address)
  /-- The distribution at an address. -/
  | value (here : Address)
  /-- The distribution at an address, written. -/
  | write (here : Address) (w : Writer)
  /-- The section at an address with all below it, written. -/
  | encode (here : Address) (w : Writer)

inductive Answer where
  | nothingThere
  | value (v : Value)
  | value? (v? : Option Value)
  | kind (k : DistributionKind)
  | distribution (d : Distribution)
  | written (w : Writer)

namespace Operation

def inSection {μ : Type → Type} [Monad μ] (root : Node) (here : Address) (f : Node → μ Answer) :
    μ Answer :=
  match root.at? here with
  | none => return .nothingThere
  | some n => f n

def inDistribution {μ : Type → Type} [Monad μ] (root : Node) (here : Address)
    (f : Schema → Slot → μ Answer) : μ Answer :=
  inSection root here fun n =>
    match n.slot? with
    | none => return .nothingThere
    | some slot => f n.schema slot

def run (ctx : Context) (root : Node) : Operation → Resolution Answer
  | resolve here name => inSection root here fun n => do
    let v ← Resolution.resolve ctx root here n.schema name
    return .value v
  | lookup here name => inSection root here fun n => do
    let v? ← Resolution.lookup ctx root here n.schema name
    return .value? v?
  | tryResolve expression => do
    let v? ← Resolution.resolveReference ctx root expression
    return .value? v?
  | mustResolve expression => do
    let v ← Resolution.requireReference ctx root expression
    return .value v
  | kind here => inDistribution root here fun schema _ => do
    let k ← Resolution.distributionKind ctx root here schema
    return .kind k
  | value here => inDistribution root here fun schema _ => do
    let d ← Resolution.distribution ctx root here schema
    return .distribution d
  | write here w => inDistribution root here fun schema slot => do
    let r ← (Encoding.encodeDistribution ctx root here schema slot).run w
    return .written r.2
  | encode here w => inSection root here fun n => do
    let r ← (Encoding.encodeNode ctx root here n).run w
    return .written r.2

def plain (ctx : Context) (root : Node) : Operation → Inquiry Answer
  | resolve here name => inSection root here fun n => do
    let e ← Plain.resolve here n.schema name
    return .value e.value
  | lookup here name => inSection root here fun n => do
    let v? ← Plain.lookup here n.schema name
    return .value? v?
  | tryResolve expression => do
    let v? ← Plain.follow root expression Resolution.documentPath
    return .value? v?
  | mustResolve expression => do
    let v ← Plain.requireReference root expression
    return .value v
  | kind here => inDistribution root here fun schema _ => do
    let k ← Plain.distributionKind here schema
    return .kind k
  | value here => inDistribution root here fun schema _ => do
    let d ← Plain.distribution here schema
    return .distribution d
  | write here w => inDistribution root here fun schema slot => do
    let w' ← Plain.encodeDistribution here schema slot w
    return .written w'
  | encode here w => inSection root here fun n => do
    let w' ← Plain.encodeNode ctx here n w
    return .written w'

/-- The memory that operations leave behind, whatever they end in. -/
def after (ctx : Context) (root : Node) : List Operation → Memo → Memo
  | [], m => m
  | op :: rest, m => after ctx root rest (Resolution.perform (op.run ctx root) m).2

variable {ctx : Context} {root : Node}

theorem agrees_inSection {here : Address} {f : Node → Resolution Answer} {p : Node → Inquiry Answer}
    (h : ∀ n, root.at? here = some n → Agrees ctx root [] (f n) (p n)) :
    Agrees ctx root [] (inSection root here f) (inSection root here p) := by
  unfold inSection
  cases hn : root.at? here with
  | none => exact Agrees.pure _
  | some n => exact h n hn

theorem agrees_inDistribution {here : Address} {f : Schema → Slot → Resolution Answer}
    {p : Schema → Slot → Inquiry Answer}
    (h : ∀ schema slot, Agrees ctx root [] (f schema slot) (p schema slot)) :
    Agrees ctx root [] (inDistribution root here f) (inDistribution root here p) := by
  refine agrees_inSection fun n _ => ?_
  cases n.slot? with
  | none => exact Agrees.pure _
  | some slot => exact h n.schema slot

theorem agrees_run {registry : Registry} (hbuilt : root.Built registry)
    (hscene : root.SingleScene) (op : Operation)
    (hapart : ∀ here w, op = .encode here w → root.ScenesApart) :
    Agrees ctx root [] (op.run ctx root) (op.plain ctx root) := by
  cases op with
  | resolve here name =>
    exact agrees_inSection fun n _ => Agrees.resolve_bind hscene fun e => Agrees.pure _
  | lookup here name =>
    exact agrees_inSection fun n hn => (Agrees.lookup hscene hn name).bind fun v? => Agrees.pure _
  | tryResolve expression =>
    exact (Agrees.resolveReference hscene expression).bind fun v? => Agrees.pure _
  | mustResolve expression =>
    exact (Agrees.requireReference hscene expression).bind fun v => Agrees.pure _
  | kind here =>
    simp only [run, plain]
    exact agrees_inDistribution fun schema slot =>
      (Agrees.distributionKind hscene here schema).bind fun k => Agrees.pure _
  | value here =>
    simp only [run, plain]
    exact agrees_inDistribution fun schema slot =>
      (Agrees.distribution hscene here schema).bind fun d => Agrees.pure _
  | write here w =>
    simp only [run, plain]
    refine agrees_inDistribution fun schema slot => ?_
    have hfollows : Agrees ctx root []
        ((Encoding.encodeDistribution ctx root here schema slot).run w)
        (Plain.encodeDistribution here schema slot w >>= fun w' => pure ((), w')) :=
      Encoding.follows_encodeDistribution hscene here schema slot w
    simpa using hfollows.bind fun r => Agrees.pure (Answer.written r.2)
  | encode here w =>
    refine agrees_inSection fun n hn => ?_
    have hbelow : ∀ here n, root.at? here = some n → ∀ p ∈ n.children,
        root.at? (here ++ [p.1]) = some p.2 := fun _ _ hn _ hp => hbuilt.at?_child hn hp
    have hfollows : Agrees ctx root [] ((Encoding.encodeNode ctx root here n).run w)
        (Plain.encodeNode ctx here n w >>= fun w' => pure ((), w')) :=
      Encoding.follows_encodeNode hscene (hapart here w rfl) hbelow here n hn w
    simpa using hfollows.bind fun r => Agrees.pure (Answer.written r.2)

theorem preserves_inSection {here : Address} {f : Node → Resolution Answer}
    (h : ∀ n, Preserves ctx root (f n)) : Preserves ctx root (inSection root here f) := by
  unfold inSection
  cases root.at? here with
  | none => exact Preserves.still fun _ => rfl
  | some n => exact h n

/-- Operations keep sound findings, also those whose answers depend on what is found. -/
theorem preserves_run {registry : Registry} (hbuilt : root.Built registry)
    (hscene : root.SingleScene) (op : Operation) : Preserves ctx root (op.run ctx root) := by
  cases op with
  | encode here w =>
    refine preserves_inSection fun n => ?_
    exact (Encoding.preserves_encodeNode hscene here n w).bind fun _ => Preserves.still fun _ => rfl
  | _ =>
    refine (agrees_run hbuilt hscene _ ?_).preserves
    intro _ _ h
    cases h

theorem keeps_after {registry : Registry} (hbuilt : root.Built registry)
    (hscene : root.SingleScene) (history : List Operation) {m : Memo} {found : Findings}
    (hm : m.Keeps ctx root found []) :
    ∃ found', (after ctx root history m).Keeps ctx root found' [] := by
  induction history generalizing m found with
  | nil => exact ⟨found, hm⟩
  | cons op rest ih =>
    obtain ⟨found', hm'⟩ := preserves_run hbuilt hscene op m found hm
    exact ih hm'

/-- Whatever was done with a tree before, an operation ends as on a fresh tree and as without memory,
be it in an answer or in a failure. The encoding of sections does so if scenes are apart. -/
theorem perform_after (ctx : Context) {registry : Registry} {members : Json.Members}
    (hsingle : ∀ s ∈ registry.schemas, (s.fields.filter (·.kind = .sceneFile)).length ≤ 1)
    (hroot : Node.ofDescription registry members = .ok root) (history : List Operation)
    (op : Operation)
    (hapart : ∀ here w, op = .encode here w → ∀ s ∈ registry.schemas, s.ScenesApart) :
    (Resolution.perform (op.run ctx root) (after ctx root history .empty)).1 =
        (Resolution.perform (op.run ctx root) .empty).1 ∧
      (Resolution.perform (op.run ctx root) (after ctx root history .empty)).1 =
        op.plain ctx root (Plain.field ctx root []) := by
  have hbuilt := Node.built_ofDescription hroot
  have hscene := hbuilt.singleScene hsingle
  have hagrees : Agrees ctx root [] (op.run ctx root) (op.plain ctx root) := by
    refine agrees_run hbuilt hscene op fun here w heq => ?_
    exact hbuilt.scenesApart (hapart here w heq)
  have hplain : ∀ m found, m.Keeps ctx root found [] →
      (Resolution.perform (op.run ctx root) m).1 = op.plain ctx root (Plain.field ctx root []) := by
    intro m found hm
    obtain ⟨m', found', hrun, -⟩ := hagrees.agreesAt found m hm
    rw [hrun]
  have hempty : Memo.Keeps ctx root .empty [] [] := Memo.Keeps.empty
  obtain ⟨found, hm⟩ := keeps_after hbuilt hscene history hempty
  have hlater := hplain _ found hm
  have hfresh := hplain .empty [] hempty
  exact ⟨hlater.trans hfresh.symm, hlater⟩

namespace Cyclic

def scene : Json.Members := [("file", .string "hall")]

def time : Json.Members := [("tick", .string "ref:time.tick")]

def members : Json.Members := [("scene", .object scene), ("time", .object time)]

def tree : Node :=
  ⟨.root, none, members, [("scene", ⟨.scene, none, scene, []⟩), ("time", ⟨.time, none, time, []⟩)]⟩

def surroundings : Context := ⟨.standard, none, fun _ => .ok [Geometry.width 1]⟩

end Cyclic

open Cyclic in
theorem perform_after_cycle :
    Node.ofDescription .standard members = .ok tree ∧
      (Resolution.perform ((resolve ["time"] "tick").run surroundings tree) .empty).1 =
        .error (.cyclicReference "time.tick") ∧
      (Resolution.perform ((encode ["scene"] .empty).run surroundings tree)
          (after surroundings tree [resolve ["time"] "tick", lookup ["scene"] "geometry"] .empty)).1 =
        .ok (.written ⟨[1, 0, 17, 0, 1, 1, 0, 255, 0, 4, 104, 97, 108, 108,
          1, 0, 19, 0, 0, 0, 0, 0, 0, 0, 0], 3⟩) := by
  have hroot : Node.ofDescription .standard members = .ok tree := by cbv
  have hplain : (encode ["scene"] .empty).plain surroundings tree (Plain.field surroundings tree []) =
      .ok (.written ⟨[1, 0, 17, 0, 1, 1, 0, 255, 0, 4, 104, 97, 108, 108,
        1, 0, 19, 0, 0, 0, 0, 0, 0, 0, 0], 3⟩) := by
    cbv
  have hagain := perform_after surroundings (by decide) hroot
    [resolve ["time"] "tick", lookup ["scene"] "geometry"] (encode ["scene"] .empty)
    fun _ _ _ => by decide
  exact ⟨hroot, by cbv, hagain.2.trans hplain⟩

namespace Labelled

def outer : Schema where
  name := Schema.rootName
  owner := none
  fields := [.nested "a" "a", .nested "b" "b"]
  names_nodup := by decide
  owner_of_emission := by decide

/-- A section whose only field refers to a scene elsewhere. -/
def probing : Schema where
  name := "a"
  owner := some .scene
  fields := [⟨"probe", .text, some (.reference "ref:b.file"), .sceneFile 1⟩]
  names_nodup := by decide
  owner_of_emission := nofun

/-- A label that is written as a scene, beside a scene that is not written. -/
def labelled : Schema where
  name := "b"
  owner := some .time
  fields := [⟨"label", .text, none, .sceneFile 1⟩, ⟨"file", .sceneFile, none, .skip⟩]
  names_nodup := by decide
  owner_of_emission := nofun

def registry : Registry where
  schemas := [outer, probing, labelled]
  names_nodup := by decide

def members : Json.Members := [("a", .object []), ("b", .object [("file", .string "hall")])]

def tree : Node :=
  ⟨outer, none, members, [("a", ⟨probing, none, [], []⟩),
    ("b", ⟨labelled, none, [("file", .string "hall")], []⟩)]⟩

def surroundings : Context := ⟨.standard, none, fun _ => .ok [Geometry.width 1]⟩

end Labelled

open Labelled in
/-- The encoder writes geometry with a label because the scene beside it was resolved before, be it by
another operation or by the encoding itself. Without that there is no geometry at the label. -/
theorem encode_unlike_plain :
    (∀ s ∈ registry.schemas, (s.fields.filter (·.kind = .sceneFile)).length ≤ 1) ∧
      Node.ofDescription registry members = .ok tree ∧
      (Resolution.perform ((encode [] .empty).run surroundings tree) .empty).1 ≠
        (encode [] .empty).plain surroundings tree (Plain.field surroundings tree []) ∧
      (Resolution.perform ((encode ["b"] .empty).run surroundings tree)
          (after surroundings tree [.resolve ["b"] "file"] .empty)).1 ≠
        (Resolution.perform ((encode ["b"] .empty).run surroundings tree) .empty).1 := by
  have hwhole : (Resolution.perform ((encode [] .empty).run surroundings tree) .empty).1 =
      .ok (.written ⟨[1, 0, 1, 0, 4, 104, 97, 108, 108, 1, 0, 17, 0, 1, 2, 0, 1, 0, 0], 3⟩) := by
    cbv
  have hplain : (encode [] .empty).plain surroundings tree (Plain.field surroundings tree []) =
      .ok (.written ⟨[1, 0, 1, 0, 4, 104, 97, 108, 108, 2, 0, 1, 0, 0], 2⟩) := by
    cbv
  have hafter : (Resolution.perform ((encode ["b"] .empty).run surroundings tree)
      (after surroundings tree [.resolve ["b"] "file"] .empty)).1 =
        .ok (.written ⟨[1, 0, 17, 0, 1, 2, 0, 1, 0, 0], 2⟩) := by
    cbv
  have hfresh : (Resolution.perform ((encode ["b"] .empty).run surroundings tree) .empty).1 =
      .ok (.written ⟨[2, 0, 1, 0, 0], 1⟩) := by
    cbv
  refine ⟨by decide, by cbv, ?_, ?_⟩
  · rw [hwhole, hplain]
    simp
  · rw [hafter, hfresh]
    simp

end Operation
end CrowdScenario

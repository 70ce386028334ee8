import CrowdScenario.Proofs.Resolution.Plain
import CrowdScenario.Proofs.Schema.Lookup
import Mathlib.Tactic.ByContra

/-!
# Findings

What has been found so far can answer later inquiries. A list of findings is sound if each of them
follows from older ones; then evaluating a field again gives its finding, whatever is under way, as
long as nothing found is under way (`Sound.field_eq`).
-/

namespace CrowdScenario

def Reader.Below (read read' : Reader) : Prop := ∀ id e, read id = .ok e → read' id = .ok e

def Inquiry.Monotone {α : Type} (p : Inquiry α) : Prop :=
  ∀ read read' : Reader, read.Below read' → ∀ a, p read = .ok a → p read' = .ok a

namespace Inquiry

theorem bind_apply {α β : Type} (p : Inquiry α) (q : α → Inquiry β) (read : Reader) :
    (p >>= q) read = p read >>= fun a => q a read := rfl

theorem ok_bind {α β : Type} (a : α) (next : α → Except CompileError β) :
    (Except.ok a >>= next) = next a := rfl

theorem bind_eq_ok {α β : Type} {p : Inquiry α} {q : α → Inquiry β} {read : Reader} {b : β} :
    (p >>= q) read = .ok b ↔ ∃ a, p read = .ok a ∧ q a read = .ok b := by
  rw [bind_apply]
  cases hp : p read with
  | error e => simp [bind, Except.bind]
  | ok a => simp [bind, Except.bind]

theorem monotone_pure {α : Type} (a : α) : Monotone (pure a) := fun _ _ _ _ h => h

theorem monotone_ofExcept {α : Type} (result : Except CompileError α) :
    Monotone (Plain.ofExcept result) := fun _ _ _ _ h => h

theorem monotone_ask (id : FieldId) : Monotone (Plain.ask id) := fun _ _ hbelow e h => hbelow id e h

theorem monotone_bind {α β : Type} {p : Inquiry α} {q : α → Inquiry β} (hp : Monotone p)
    (hq : ∀ a, Monotone (q a)) : Monotone (p >>= q) := by
  intro read read' hbelow b h
  obtain ⟨a, ha, hb⟩ := bind_eq_ok.mp h
  exact bind_eq_ok.mpr ⟨a, hp read read' hbelow a ha, hq a read read' hbelow b hb⟩

end Inquiry

namespace Plain

open Inquiry

theorem monotone_readTarget (t : Node.Target) : Monotone (readTarget t) := by
  refine monotone_bind (monotone_ask _) fun e => ?_
  split <;> exact monotone_pure _

theorem monotone_follow (root : Node) (expression path : String) :
    Monotone (follow root expression path) := by
  unfold follow
  split
  · exact monotone_ofExcept _
  · split
    · exact monotone_pure _
    · exact monotone_readTarget _

theorem monotone_firstInput (root : Node) (path : String) (sources : List Source) :
    Monotone (firstInput root path sources) := by
  induction sources with
  | nil => exact monotone_pure _
  | cons source rest ih =>
    cases source with
    | given i => exact monotone_pure _
    | reference expression required =>
      refine monotone_bind (monotone_follow root expression path) fun v? => ?_
      cases v? with
      | some v => exact monotone_pure _
      | none =>
        cases required with
        | true => exact monotone_ofExcept _
        | false => exact ih

theorem monotone_evaluate (ctx : Context) (root n : Node) (id : FieldId) (f : Field) :
    Monotone (evaluate ctx root n id f) := by
  exact monotone_bind (monotone_firstInput root id.path _) fun input? => monotone_ofExcept _

theorem kind_of_finish {ctx : Context} {id : FieldId} {kind : FieldKind} {input? : Option Input}
    {e : Evaluated} (h : finish ctx id kind input? = .ok e) (hsides : e.sides ≠ []) :
    kind = .sceneFile := by
  by_contra hkind
  have hplain : (coerce kind id.path input?).map (Evaluated.mk · []) = .ok e := by
    cases kind with
    | sceneFile => exact absurd rfl hkind
    | _ => exact h
  cases hc : coerce kind id.path input? with
  | error cause =>
    rw [hc] at hplain
    cases hplain
  | ok v =>
    rw [hc] at hplain
    cases hplain
    exact hsides rfl

end Plain

abbrev Findings := List (FieldId × Evaluated)

namespace Findings

def read (found : Findings) : Reader := fun id =>
  match found.lookup id with
  | some e => .ok e
  | none => .error (.unknownField id.name id.owner.path)

theorem read_eq_ok {found : Findings} {id : FieldId} {e : Evaluated} :
    found.read id = .ok e ↔ found.lookup id = some e := by
  unfold read
  split
  · next e' h => simp [h]
  · next h => simp [h]

theorem lookup_cons {found : Findings} {id id' : FieldId} {e : Evaluated} :
    List.lookup id' ((id, e) :: found) = if id' = id then some e else found.lookup id' := by
  by_cases h : id' = id
  · simp [h]
  · have hbeq : (id' == id) = false := beq_eq_false_iff_ne.mpr h
    rw [List.lookup_cons, hbeq, if_neg h]

theorem below_cons {found : Findings} {id : FieldId} (e : Evaluated)
    (hnew : found.lookup id = none) : Reader.Below (read found) (read ((id, e) :: found)) := by
  intro id' e' h
  rw [read_eq_ok] at h ⊢
  have hne : id' ≠ id := by
    intro heq
    rw [heq, hnew] at h
    cases h
  rw [lookup_cons, if_neg hne, h]

/-- Each finding is what evaluation gives from the findings before it. -/
inductive Sound (ctx : Context) (root : Node) : Findings → Prop
  | nil : Sound ctx root []
  | cons {found : Findings} {id : FieldId} {e : Evaluated} {n : Node} {f : Field}
      (older : Sound ctx root found) (new : found.lookup id = none) (scalar : id ∈ root.scalars [])
      (declared : root.field? id = some (n, f))
      (evaluated : Plain.evaluate ctx root n id f found.read = .ok e) :
      Sound ctx root ((id, e) :: found)

variable {ctx : Context} {root : Node}

/-- What was found is found again, unless something found is under way. -/
theorem Sound.field_eq {found : Findings} (h : Sound ctx root found) {busy : List FieldId}
    (hbusy : ∀ id ∈ busy, found.lookup id = none) {id : FieldId} {e : Evaluated}
    (hfound : found.lookup id = some e) : Plain.field ctx root busy id = .ok e := by
  induction h generalizing busy id e with
  | nil => cases hfound
  | @cons found id' e' n f older hnew hscalar hdeclared hevaluated ih =>
    have hother : ∀ x ∈ busy, x ≠ id' ∧ found.lookup x = none := by
      intro x hx
      have hlookup := hbusy x hx
      rw [lookup_cons] at hlookup
      split at hlookup
      · cases hlookup
      · next hne => exact ⟨hne, hlookup⟩
    rw [lookup_cons] at hfound
    split at hfound
    · next heq =>
      subst heq
      cases hfound
      have hnot : id ∉ busy := fun hid => (hother id hid).1 rfl
      -- The older findings answer no more than evaluation does while the newest is under way.
      have hbelow : Reader.Below (read found) (Plain.field ctx root (id :: busy)) := by
        intro x ex hx
        refine ih (fun y hy => ?_) (read_eq_ok.mp hx)
        cases hy with
        | head => exact hnew
        | tail _ hy => exact (hother y hy).2
      rw [Plain.field, dif_neg hnot, dif_pos hscalar, hdeclared]
      exact Plain.monotone_evaluate ctx root n id f _ _ hbelow _ hevaluated
    · exact ih (fun x hx => (hother x hx).2) hfound

theorem Sound.kind_of_sides {found : Findings} (h : Sound ctx root found) {id : FieldId}
    {e : Evaluated} (hmem : (id, e) ∈ found) (hsides : e.sides ≠ []) :
    ∃ n f, root.field? id = some (n, f) ∧ f.kind = .sceneFile := by
  induction h with
  | nil => cases hmem
  | @cons found id' e' n f older hnew hscalar hdeclared hevaluated ih =>
    cases hmem with
    | tail _ hmem => exact ih hmem
    | head =>
      obtain ⟨input?, -, hfinish⟩ := Inquiry.bind_eq_ok.mp hevaluated
      exact ⟨n, f, hdeclared, Plain.kind_of_finish hfinish hsides⟩

theorem Sound.below_of_suffix {found found' : Findings} (h : Sound ctx root found')
    (hsuffix : found <:+ found') : Reader.Below (read found) (read found') := by
  induction h with
  | nil =>
    rw [List.suffix_nil.mp hsuffix]
    exact fun _ _ h => h
  | @cons older id e n f _ hnew _ _ _ ih =>
    rcases List.suffix_cons_iff.mp hsuffix with heq | holder
    · rw [heq]
      exact fun _ _ h => h
    · intro x ex hx
      exact below_cons e hnew x ex (ih holder x ex hx)

theorem Sound.lookup_of_suffix {found found' : Findings} (h : Sound ctx root found')
    (hsuffix : found <:+ found') {id : FieldId} {e : Evaluated}
    (hfound : found.lookup id = some e) : found'.lookup id = some e :=
  read_eq_ok.mp (h.below_of_suffix hsuffix id e (read_eq_ok.mpr hfound))

end Findings

/-- No section of the tree has two fields for scenes. -/
def Node.SingleScene (root : Node) : Prop :=
  ∀ here n, root.at? here = some n → ∀ f ∈ n.schema.fields, ∀ f' ∈ n.schema.fields,
    f.kind = .sceneFile → f'.kind = .sceneFile → f = f'

namespace Node

theorem field?_eq_some {root n : Node} {id : FieldId} {f : Field} :
    root.field? id = some (n, f) ↔ root.at? id.owner = some n ∧ n.schema.field? id.name = some f := by
  simp only [field?, Option.bind_eq_some_iff, Option.map_eq_some_iff, Prod.mk.injEq]
  constructor
  · intro h
    obtain ⟨n', hat, f', hf, rfl, rfl⟩ := h
    exact ⟨hat, hf⟩
  · intro h
    exact ⟨n, h.1, f, h.2, rfl, rfl⟩

theorem SingleScene.eq {root : Node} (h : root.SingleScene) {id id' : FieldId} {n n' : Node}
    {f f' : Field} (hid : root.field? id = some (n, f)) (hid' : root.field? id' = some (n', f'))
    (hkind : f.kind = .sceneFile) (hkind' : f'.kind = .sceneFile) (howner : id.owner = id'.owner) :
    id = id' := by
  obtain ⟨hat, hf⟩ := field?_eq_some.mp hid
  obtain ⟨hat', hf'⟩ := field?_eq_some.mp hid'
  rw [howner, hat'] at hat
  cases hat
  obtain ⟨hmem, hname⟩ := Schema.mem_of_field? hf
  obtain ⟨hmem', hname'⟩ := Schema.mem_of_field? hf'
  have heq := h id'.owner n hat' f hmem f' hmem' hkind hkind'
  have hnames : id.name = id'.name := by rw [← hname, heq, hname']
  rcases id with ⟨owner, name⟩
  rcases id' with ⟨owner', name'⟩
  rw [FieldId.mk.injEq]
  exact ⟨howner, hnames⟩

end Node

namespace Findings

/-- The latest side value under a name in a section. -/
def side? : Findings → Address → String → Option Value
  | [], _, _ => none
  | (id, e) :: found, here, name =>
    if id.owner = here then (e.sides.lookup name).or (side? found here name)
    else side? found here name

variable {ctx : Context} {root : Node}

theorem side?_eq_none {found : Findings} {here : Address}
    (h : ∀ p ∈ found, p.1.owner = here → p.2.sides = []) (name : String) :
    found.side? here name = none := by
  induction found with
  | nil => rfl
  | cons p found ih =>
    rcases p with ⟨id, e⟩
    have hrest := ih fun q hq => h q (List.mem_cons_of_mem _ hq)
    rw [side?, hrest]
    split
    · next howner =>
      rw [h _ List.mem_cons_self howner]
      rfl
    · rfl

theorem lookup_eq_some_of_mem {found : Findings} (h : Sound ctx root found) {id : FieldId}
    {e : Evaluated} (hmem : (id, e) ∈ found) : found.lookup id = some e := by
  induction h with
  | nil => cases hmem
  | @cons older id' e' n f _ hnew _ _ _ ih =>
    cases hmem with
    | head => rw [lookup_cons, if_pos rfl]
    | tail _ hmem =>
      have hold := ih hmem
      have hne : id ≠ id' := by
        intro heq
        rw [heq, hnew] at hold
        cases hold
      rw [lookup_cons, if_neg hne, hold]

theorem Sound.side?_eq {found : Findings} (h : Sound ctx root found) (hscene : root.SingleScene)
    {id : FieldId} {n : Node} {f : Field} (hfield : root.field? id = some (n, f))
    (hkind : f.kind = .sceneFile) {e : Evaluated} (hfound : found.lookup id = some e)
    (name : String) : found.side? id.owner name = e.sides.lookup name := by
  have hother : ∀ p ∈ found, p.1.owner = id.owner → p.1 ≠ id → p.2.sides = [] := by
    intro p hp howner hne
    by_contra hsides
    obtain ⟨n', f', hfield', hkind'⟩ := h.kind_of_sides hp hsides
    exact hne (hscene.eq hfield' hfield hkind' hkind howner)
  induction h with
  | nil => cases hfound
  | @cons older id' e' n' f' hsound hnew _ _ _ ih =>
    rw [side?]
    rw [lookup_cons] at hfound
    split at hfound
    · next heq =>
      subst heq
      cases hfound
      have hrest : side? older id.owner name = none := by
        refine side?_eq_none (fun p hp howner => ?_) name
        refine hother p (List.mem_cons_of_mem _ hp) howner fun heq => ?_
        have hlookup : older.lookup p.1 = some p.2 := lookup_eq_some_of_mem hsound hp
        rw [heq, hnew] at hlookup
        cases hlookup
      rw [if_pos rfl, hrest, Option.or_none]
    · next hne =>
      have hrest := ih hfound fun p hp => hother p (List.mem_cons_of_mem _ hp)
      split
      · next howner =>
        have hsides : e'.sides = [] := hother _ List.mem_cons_self howner (Ne.symm hne)
        rw [hsides, hrest]
        rfl
      · exact hrest

end Findings
end CrowdScenario

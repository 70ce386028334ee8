import CrowdScenario.Proofs.Compilation.Kinds
import CrowdScenario.Proofs.Compilation.Order
import CrowdScenario.Proofs.Schema.Drafts

/-!
# Sections of what is written

A schema is only built with a section for the records of its fields. So an encoder never finds itself
with a record and no section to write it in, whatever the schemas are, whatever the tree is and
whatever was asked of the tree before (`drafts_provide_for_encoding`).
-/

namespace CrowdScenario

open Resolution

def CompileError.Housed : CompileError → Prop
  | .invalidValue _ expected _ => expected ≠ "section with a wire id"
  | _ => True

namespace Resolution

theorem covers_housed (root : Node) (schema : Schema) : Covers root schema CompileError.Housed := by
  have hreadings : ∀ x ∈ Input.readings, x ≠ "section with a wire id" := by decide
  refine ⟨fun e he => ?_, fun f _ _ path => ?_⟩
  · cases e with
    | invalidValue path expected found => exact hreadings expected he
    | _ => trivial
  · show "scalar field" ≠ "section with a wire id"
    decide

end Resolution

namespace Encoding

variable {registry : Registry} {root : Node} {ctx : Context}

theorem housed_require {α : Type} {path expected : String} (part : Value → Option α) (v : Value)
    (h : expected ≠ "section with a wire id") :
    Respects root (fun _ => True) CompileError.Housed (require path expected part v) := by
  unfold require
  cases part v with
  | some a => exact .pure trivial
  | none => exact .throw h

theorem housed_entries (owner : Section) (id : FieldId) (v : Value) (emission : Emission) :
    Respects root (fun _ => True) CompileError.Housed (entries ctx owner id v emission) := by
  cases emission with
  | skip => exact .pure trivial
  | leadingByte => exact .pure trivial
  | flag element => exact (housed_require Value.bool? v (by decide)).bind fun _ _ => .pure trivial
  | float element => exact (housed_require Value.float? v (by decide)).bind fun _ _ => .pure trivial
  | seconds element =>
    refine (housed_require Value.float? v (by decide)).bind fun x _ => ?_
    cases endTime? x with
    | some t => exact .pure trivial
    | none => exact .throw trivial
  | sceneFile element =>
    refine (housed_require Value.text? v (by decide)).bind fun file _ => ?_
    exact Respects.memory.bind fun _ _ => .pure trivial

theorem housed_putAll (list : List (String × Entry)) (w : Writer) :
    Respects root (fun _ => True) CompileError.Housed ((putAll list).run w) := by
  intro m hm
  rw [perform_putAll]
  refine ⟨?_, hm⟩
  cases h : Plain.putAll list w with
  | ok w' => exact .ok trivial
  | error e =>
    obtain ⟨path, entry, cause, -, -, rfl⟩ := putAll_eq_error h
    exact .error trivial

theorem housed_writeValue {schema : Schema} {f : Field} (hf : f ∈ schema.fields)
    (hskip : f.emission ≠ .skip) (id : FieldId) (v : Value) (w : Writer) :
    Respects root (fun _ => True) CompileError.Housed ((writeValue ctx schema f id v).run w) := by
  unfold writeValue
  by_cases hleading : f.emission = .leadingByte
  · rw [if_pos hleading, StateT.run_bind, StateT.run_monadLift, bind_assoc]
    exact (housed_require Value.code? v (by decide)).bind fun _ _ => .pure trivial
  · -- The branch without a section is never taken, because of what a schema carries.
    obtain ⟨owner, howner⟩ := Schema.exists_owner hf hskip hleading
    rw [if_neg hleading, howner, StateT.run_bind, StateT.run_monadLift, bind_assoc]
    exact (housed_entries owner id v f.emission).bind fun list _ => housed_putAll list w

theorem housed_run (hbuilt : root.Built registry) {s : Step} (hs : s.Of root) (w : Writer) :
    Respects root (fun _ => True) CompileError.Housed ((s.run ctx root).run w) := by
  cases s with
  | field here schema f =>
    obtain ⟨-, hf, hskip⟩ := hs
    rw [Step.run, run_encodeField]
    refine (respects_resolve ctx hbuilt here f.name (covers_housed root schema)).bind fun v _ => ?_
    exact housed_writeValue hf hskip _ v w
  | distribution here schema slot =>
    rw [Step.run, run_encodeDistribution]
    refine (respects_distribution ctx hbuilt here (covers_housed root schema)).bind fun d _ => ?_
    exact housed_putAll [(here.path, .distribution slot.coordinate d)] w

theorem housed_encodeNode (hbuilt : root.Built registry) {here : Address} {n : Node}
    (hn : root.at? here = some n) (w : Writer) :
    Respects root (fun _ => True) CompileError.Housed ((encodeNode ctx root here n).run w) := by
  rw [encodeNode_eq_runAll]
  have hsteps : ∀ s ∈ steps here n, s.Of root :=
    of_mem_steps (fun _ _ hn _ hp => hbuilt.at?_child hn hp) here n hn
  exact respects_steps (fun s hs => housed_run hbuilt (hsteps s hs)) w

end Encoding

namespace Operation

theorem housed_encode (ctx : Context) {registry : Registry} {root : Node}
    (hbuilt : root.Built registry) (here : Address) (w : Writer) :
    Respects root (fun _ => True) CompileError.Housed ((encode here w).run ctx root) := by
  rw [run, inSection]
  cases hn : root.at? here with
  | none => exact .pure trivial
  | some n => exact (Encoding.housed_encodeNode hbuilt hn w).bind fun _ _ => .pure trivial

end Operation

/-- Calls in any order lead to a schema unless a name is declared twice or, failing that, a record has no
section, which may be set at any time; the name that counts is noted on the way. A schema has its fields
in the order of their declaration, each at the one place of its name. Schemas with names of their own
make a registry, which knows each under its name. With any registry, in any tree and after any
questions to it, an encoding never lacks a section. -/
theorem drafts_provide_for_encoding :
    (∀ name calls,
      ((∃ s, (Drafting.after name calls).draft.build = .ok s) ↔
        ((Draft.Call.fields calls).map Field.name).Nodup ∧
          ((∃ s, .inSection s ∈ calls) ∨
            ∀ f ∈ Draft.Call.fields calls, f.emission.needsSection = false)) ∧
      (∀ e, (Drafting.after name calls).draft.build = .error e ↔
        (∃ f, RepeatsFirst Field.name (Draft.Call.fields calls) f ∧
          e = .duplicateField name f.name) ∨
        ((Draft.Call.fields calls).map Field.name).Nodup ∧ (∀ s, .inSection s ∉ calls) ∧
          ∃ f, (Draft.Call.fields calls).find? (fun g => g.emission.needsSection) = some f ∧
            e = .missingSection name f.name) ∧
      (∀ e, (Drafting.after name calls).draft.build = .error e ↔
        (Drafting.after name calls).fault? = some e) ∧
      ∀ s, (Drafting.after name calls).draft.build = .ok s →
        s.name = name ∧ s.owner = Draft.Call.owner? calls ∧ s.fields = Draft.Call.fields calls ∧
          (∀ n i, s.index? n = some i ↔ (s.fields[i]?).map Field.name = some n) ∧
          ∀ n, s.field? n = (s.index? n).bind fun i => s.fields[i]?) ∧
    (∀ schemas,
      ((∃ r, Registry.registerAll schemas = .ok r) ↔ (schemas.map Schema.name).Nodup) ∧
      (∀ e, Registry.registerAll schemas = .error e ↔
        ∃ s, RepeatsFirst Schema.name schemas s ∧ e = .duplicateSection s.name) ∧
      ∀ r, Registry.registerAll schemas = .ok r →
        ∀ n s, r.schema? n = some s ↔ s ∈ schemas ∧ s.name = n) ∧
    ∀ ctx registry members root history here w path found,
      Node.ofDescription registry members = .ok root →
        (perform ((Operation.encode here w).run ctx root)
          (Operation.after ctx root history .empty)).1 ≠
            .error (.invalidValue path "section with a wire id" found) := by
  refine ⟨fun name calls => ⟨Drafting.build_after_eq_ok_iff,
    fun e => Drafting.build_after_eq_error_iff, fun e => ?_, fun s hs => ?_⟩,
    fun schemas => ⟨Registry.registerAll_eq_ok_iff, fun e => Registry.registerAll_eq_error_iff,
      fun r hr n s => Registry.schema?_registerAll hr⟩, ?_⟩
  · rw [(Drafting.watched_after name calls).fault?]
    exact Draft.build_eq_error
  · obtain ⟨hname, howner, hfields⟩ := Draft.parts_of_build hs
    rw [Drafting.draft_after] at hname howner hfields
    exact ⟨hname, howner, hfields, fun n i => Schema.index?_eq_some, s.field?_eq⟩
  · intro ctx registry members root history here w path found hroot hfails
    have hbuilt := Node.built_ofDescription hroot
    have hkinded := Operation.kinded_after ctx hbuilt history (Memo.Kinded.empty root)
    have hhoused : (CompileError.invalidValue path "section with a wire id" found).Housed :=
      (Operation.housed_encode ctx hbuilt here w).of_error hkinded (Prod.ext hfails rfl)
    exact hhoused rfl

namespace Clock

/-- Fields in front of the section in which they are written. -/
def calls : List Draft.Call := [.declare (.float "rate" 1), .declare (.float "pace" 2), .inSection .time]

def clock : Schema where
  name := "clock"
  owner := some .time
  fields := [.float "rate" 1, .float "pace" 2]
  names_nodup := by decide
  owner_of_emission := nofun

def outer : Schema where
  name := Schema.rootName
  owner := none
  fields := [.nested "clock" "clock"]
  names_nodup := by decide
  owner_of_emission := by decide

def registry : Registry := ⟨[clock, outer], by decide⟩

def members : Json.Members := [("clock", .object [("pace", .string "ref:clock.rate")])]

def tree : Node :=
  ⟨outer, none, members, [("clock", ⟨clock, none, [("pace", .string "ref:clock.rate")], []⟩)]⟩

def surroundings : Context := ⟨.standard, none, fun _ => .ok []⟩

end Clock

open Clock in
theorem drafts_provide_for_encoding_clock :
    (Drafting.after "clock" calls).draft.build = .ok clock ∧
      clock.fields = [.float "rate" 1, .float "pace" 2] ∧ clock.index? "pace" = some 1 ∧
      Registry.registerAll [outer, clock] = .ok registry ∧ registry.schema? "clock" = some clock ∧
      Node.ofDescription registry members = .ok tree ∧
      ∀ path found, (perform ((Operation.encode [] .empty).run surroundings tree)
        (Operation.after surroundings tree [.resolve ["clock"] "pace"] .empty)).1 ≠
          .error (.invalidValue path "section with a wire id" found) := by
  obtain ⟨hdrafts, hregistries, hencodes⟩ := drafts_provide_for_encoding
  have hbuild : (Drafting.after "clock" calls).draft.build = .ok clock := by rfl
  have hregister : Registry.registerAll [outer, clock] = .ok registry := by rfl
  have hroot : Node.ofDescription registry members = .ok tree := by cbv
  obtain ⟨-, -, hfields, hindex, -⟩ := (hdrafts "clock" calls).2.2.2 clock hbuild
  have hknown := (hregistries [outer, clock]).2.2 registry hregister
  refine ⟨hbuild, hfields, (hindex "pace" 1).mpr (by decide), hregister, ?_, hroot,
    fun path found => hencodes _ _ _ _ _ _ _ path found hroot⟩
  exact (hknown "clock" clock).mpr ⟨List.mem_cons_of_mem _ List.mem_cons_self, rfl⟩

end CrowdScenario

import CrowdScenario.Proofs.Schema.Lookup
import Mathlib.Data.List.Induction

/-!
# Drafts and registrations

A draft is filled call by call, in any order. Whether it can be built is decided in the end: no name may
be declared twice, and what is to be written needs a section, which may be set after the fields. Both
for the fields of a draft and for the schemas of a registry it is the first repeated name that counts
(`RepeatsFirst`).
-/

namespace CrowdScenario

/-- The first member of a list whose key is that of one before it. -/
def RepeatsFirst {α β : Type} (key : α → β) (xs : List α) (x : α) : Prop :=
  ∃ before behind, xs = before ++ x :: behind ∧ (before.map key).Nodup ∧ key x ∈ before.map key

namespace Draft

variable {seen ns : List String}

theorem firstRepeated?_append (seen ns ms : List String) :
    firstRepeated? seen (ns ++ ms) =
      (firstRepeated? seen ns).or (firstRepeated? (ns.reverse ++ seen) ms) := by
  induction ns generalizing seen with
  | nil => rfl
  | cons n ns ih =>
    rw [List.cons_append, firstRepeated?, firstRepeated?]
    split
    · rfl
    · rw [ih, List.reverse_cons, List.append_assoc, List.singleton_append]

theorem firstRepeated?_eq_none :
    firstRepeated? seen ns = none ↔ ns.Nodup ∧ ∀ n ∈ ns, n ∉ seen := by
  refine ⟨nodup_of_firstRepeated?, fun h => ?_⟩
  induction ns generalizing seen with
  | nil => rfl
  | cons n ns ih =>
    obtain ⟨hnodup, hnew⟩ := h
    rw [List.nodup_cons] at hnodup
    rw [firstRepeated?, if_neg (hnew n List.mem_cons_self)]
    refine ih ⟨hnodup.2, fun m hm hseen => ?_⟩
    rcases List.mem_cons.mp hseen with rfl | hseen
    · exact hnodup.1 hm
    · exact hnew m (List.mem_cons_of_mem _ hm) hseen

theorem firstRepeated?_eq_some {n : String} :
    firstRepeated? seen ns = some n ↔ ∃ before behind, ns = before ++ n :: behind ∧
      firstRepeated? seen before = none ∧ n ∈ before.reverse ++ seen := by
  constructor
  · intro h
    induction ns generalizing seen with
    | nil => cases h
    | cons m ns ih =>
      rw [firstRepeated?] at h
      split at h
      · next hm =>
        cases h
        exact ⟨[], ns, rfl, rfl, hm⟩
      · next hm =>
        obtain ⟨before, behind, rfl, hnone, hmem⟩ := ih h
        refine ⟨m :: before, behind, rfl, ?_, ?_⟩
        · rw [firstRepeated?, if_neg hm]
          exact hnone
        · rw [List.reverse_cons, List.append_assoc]
          exact hmem
  · rintro ⟨before, behind, rfl, hnone, hmem⟩
    rw [firstRepeated?_append, hnone, Option.none_or, firstRepeated?, if_pos hmem]

section
variable {α : Type} {key : α → String} {xs : List α}

theorem firstRepeated?_eq_none_iff_nodup :
    firstRepeated? [] (xs.map key) = none ↔ (xs.map key).Nodup := by
  rw [firstRepeated?_eq_none]
  exact ⟨And.left, fun h => ⟨h, fun _ _ => List.not_mem_nil⟩⟩

theorem firstRepeated?_map_eq_some {n : String} :
    firstRepeated? [] (xs.map key) = some n ↔ ∃ x, RepeatsFirst key xs x ∧ key x = n := by
  rw [firstRepeated?_eq_some]
  constructor
  · rintro ⟨before, behind, heq, hnone, hmem⟩
    obtain ⟨xs₁, rest, rfl, rfl, hrest⟩ := List.map_eq_append_iff.mp heq
    obtain ⟨x, xs₂, rfl, rfl, rfl⟩ := List.map_eq_cons_iff.mp hrest
    rw [List.append_nil, List.mem_reverse] at hmem
    exact ⟨x, ⟨xs₁, xs₂, rfl, firstRepeated?_eq_none_iff_nodup.mp hnone, hmem⟩, rfl⟩
  · rintro ⟨x, ⟨before, behind, rfl, hnodup, hmem⟩, rfl⟩
    refine ⟨before.map key, behind.map key, ?_, firstRepeated?_eq_none_iff_nodup.mpr hnodup, ?_⟩
    · rw [List.map_append, List.map_cons]
    · rw [List.append_nil, List.mem_reverse]
      exact hmem

theorem firstRepeated?_of_repeats {x : α} (h : RepeatsFirst key xs x) :
    firstRepeated? [] (xs.map key) = some (key x) :=
  firstRepeated?_map_eq_some.mpr ⟨x, h, rfl⟩

end

def fault? (d : Draft) : Option SchemaError :=
  match firstRepeated? [] (d.fields.map Field.name) with
  | some name => some (.duplicateField d.name name)
  | none => d.homeless?.map fun f => .missingSection d.name f.name

variable {d : Draft} {s : Schema} {e : SchemaError}

theorem build_of_fault (h : d.fault? = some e) : d.build = .error e := by
  unfold fault? at h
  unfold build
  split
  · next name hname =>
    rw [hname] at h
    cases h
    rfl
  · next hname =>
    rw [hname] at h
    split
    · next f hf =>
      rw [hf] at h
      cases h
      rfl
    · next hf =>
      rw [hf] at h
      cases h

theorem build_of_sound (h : d.fault? = none) :
    ∃ s, d.build = .ok s ∧ s.name = d.name ∧ s.owner = d.owner ∧ s.fields = d.fields := by
  unfold fault? at h
  unfold build
  split
  · next name hname =>
    rw [hname] at h
    cases h
  · next hname =>
    rw [hname] at h
    split
    · next f hf =>
      rw [hf] at h
      cases h
    · exact ⟨_, rfl, rfl, rfl, rfl⟩

theorem build_eq_error : d.build = .error e ↔ d.fault? = some e := by
  refine ⟨fun h => ?_, build_of_fault⟩
  cases hfault : d.fault? with
  | none =>
    obtain ⟨s, hs, -⟩ := build_of_sound hfault
    rw [hs] at h
    cases h
  | some e' =>
    rw [build_of_fault hfault] at h
    cases h
    rfl

theorem build_eq_ok_iff : (∃ s, d.build = .ok s) ↔ d.fault? = none := by
  constructor
  · rintro ⟨s, hs⟩
    cases hfault : d.fault? with
    | none => rfl
    | some e =>
      rw [build_of_fault hfault] at hs
      cases hs
  · intro h
    obtain ⟨s, hs, -⟩ := build_of_sound h
    exact ⟨s, hs⟩

theorem parts_of_build (h : d.build = .ok s) :
    s.name = d.name ∧ s.owner = d.owner ∧ s.fields = d.fields := by
  obtain ⟨s', hs', hparts⟩ := build_of_sound (build_eq_ok_iff.mp ⟨s, h⟩)
  rw [hs'] at h
  cases h
  exact hparts

theorem fault?_eq_none :
    d.fault? = none ↔ (d.fields.map Field.name).Nodup ∧ d.homeless? = none := by
  rw [← firstRepeated?_eq_none_iff_nodup, fault?]
  cases firstRepeated? [] (d.fields.map Field.name) with
  | some name => exact ⟨nofun, nofun⟩
  | none =>
    rw [Option.map_eq_none_iff]
    exact ⟨fun h => ⟨rfl, h⟩, And.right⟩

theorem fault?_eq_some :
    d.fault? = some e ↔
      (∃ f, RepeatsFirst Field.name d.fields f ∧ e = .duplicateField d.name f.name) ∨
        (d.fields.map Field.name).Nodup ∧
          ∃ f, d.homeless? = some f ∧ e = .missingSection d.name f.name := by
  rw [← firstRepeated?_eq_none_iff_nodup, fault?]
  cases h : firstRepeated? [] (d.fields.map Field.name) with
  | some name =>
    obtain ⟨f, hf, rfl⟩ := firstRepeated?_map_eq_some.mp h
    constructor
    · intro he
      cases he
      exact .inl ⟨f, hf, rfl⟩
    · rintro (⟨g, hg, rfl⟩ | ⟨hnone, -⟩)
      · rw [firstRepeated?_of_repeats hg, Option.some.injEq] at h
        rw [h]
      · cases hnone
  | none =>
    rw [Option.map_eq_some_iff]
    constructor
    · rintro ⟨f, hf, rfl⟩
      exact .inr ⟨rfl, f, hf, rfl⟩
    · rintro (⟨g, hg, rfl⟩ | ⟨-, f, hf, rfl⟩)
      · rw [firstRepeated?_of_repeats hg] at h
        cases h
      · exact ⟨f, hf, rfl⟩

end Draft

/-! ### Drafting call by call -/

inductive Draft.Call where
  | inSection (s : Section)
  | declare (f : Field)

namespace Draft.Call

def section? : Call → Option Section
  | inSection s => some s
  | declare _ => none

def field? : Call → Option Field
  | inSection _ => none
  | declare f => some f

def fields (calls : List Call) : List Field := calls.filterMap field?

def owner? (calls : List Call) : Option Section := (calls.filterMap section?).getLast?

theorem owner?_eq_none {calls : List Call} :
    owner? calls = none ↔ ∀ s, .inSection s ∉ calls := by
  rw [owner?, List.getLast?_eq_none_iff, List.filterMap_eq_nil_iff]
  constructor
  · intro h s hs
    cases h _ hs
  · intro h c hc
    cases c with
    | inSection s => exact absurd hc (h s)
    | declare f => rfl

end Draft.Call

/-- A draft under way, with the first name that was declared twice. -/
structure Drafting where
  draft : Draft
  repeated? : Option String

namespace Drafting

open Draft

def start (name : String) : Drafting := ⟨.named name, none⟩

/-- A call takes effect also behind a repeated name. Only the first such name is kept. -/
def call (d : Drafting) : Call → Drafting
  | .inSection s => { d with draft := d.draft.inSection s }
  | .declare f =>
    ⟨d.draft.declare f,
      d.repeated?.or (if f.name ∈ d.draft.fields.map Field.name then some f.name else none)⟩

/-- What is wrong with a draft, by what was noted. -/
def fault? (d : Drafting) : Option SchemaError :=
  match d.repeated? with
  | some name => some (.duplicateField d.draft.name name)
  | none => d.draft.homeless?.map fun f => .missingSection d.draft.name f.name

def after (name : String) (calls : List Call) : Drafting := calls.foldl call (start name)

/-- The name that is kept is the first repeated one. -/
def Watched (d : Drafting) : Prop :=
  d.repeated? = firstRepeated? [] (d.draft.fields.map Field.name)

theorem Watched.call {d : Drafting} (h : d.Watched) (c : Call) : (d.call c).Watched := by
  cases c with
  | inSection s => exact h
  | declare f =>
    have happend := firstRepeated?_append [] (d.draft.fields.map Field.name) [f.name]
    rw [← h, List.append_nil] at happend
    simp only [Watched, Drafting.call, Draft.declare, List.map_append, List.map_cons, List.map_nil,
      happend, firstRepeated?, List.mem_reverse]

section
variable {name : String} {calls : List Call}

theorem watched_after (name : String) (calls : List Call) : (after name calls).Watched := by
  -- A call acts on what the calls before it have made, so the last one is taken off.
  induction calls using List.reverseRecOn with
  | nil => rfl
  | append_singleton calls c ih =>
    rw [after, List.foldl_append]
    exact ih.call c

theorem draft_after (name : String) (calls : List Call) :
    (after name calls).draft = ⟨name, Call.owner? calls, Call.fields calls⟩ := by
  induction calls using List.reverseRecOn with
  | nil => rfl
  | append_singleton calls c ih =>
    rw [after] at ih ⊢
    rw [List.foldl_append, List.foldl_cons, List.foldl_nil]
    cases c with
    | inSection s =>
      simp only [Drafting.call, ih, Draft.inSection, Call.owner?, Call.fields,
        List.filterMap_append, Call.section?, Call.field?, List.filterMap_cons, List.filterMap_nil,
        List.getLast?_concat, List.append_nil]
    | declare f =>
      simp only [Drafting.call, ih, Draft.declare, Call.owner?, Call.fields,
        List.filterMap_append, Call.section?, Call.field?, List.filterMap_cons, List.filterMap_nil,
        List.append_nil]

/-- What is noted on the way is what is wrong in the end. -/
theorem Watched.fault? {d : Drafting} (h : d.Watched) : d.fault? = d.draft.fault? := by
  rw [Drafting.fault?, h, Draft.fault?]

theorem homeless?_after_eq_some {f : Field} :
    (after name calls).draft.homeless? = some f ↔
      (∀ s, .inSection s ∉ calls) ∧
        (Call.fields calls).find? (fun g => g.emission.needsSection) = some f := by
  rw [draft_after, homeless?, ← Call.owner?_eq_none]
  cases Call.owner? calls with
  | some s =>
    constructor
    · intro h
      cases h
    · rintro ⟨h, -⟩
      cases h
  | none => exact ⟨fun h => ⟨rfl, h⟩, And.right⟩

theorem homeless?_after_eq_none :
    (after name calls).draft.homeless? = none ↔
      (∃ s, .inSection s ∈ calls) ∨ ∀ f ∈ Call.fields calls, f.emission.needsSection = false := by
  have hset : (∃ s, .inSection s ∈ calls) ↔ Call.owner? calls ≠ none := by
    rw [Ne, Call.owner?_eq_none, not_forall_not]
  rw [draft_after, homeless?, hset]
  cases Call.owner? calls with
  | some s => exact ⟨fun _ => .inl (Option.some_ne_none s), fun _ => rfl⟩
  | none =>
    simp only [List.find?_eq_none, Bool.not_eq_true, ne_eq, not_true_eq_false, false_or]

/-- Any calls lead to a schema unless a name is declared twice or a section is missing. -/
theorem build_after_eq_ok_iff :
    (∃ s, (after name calls).draft.build = .ok s) ↔
      ((Call.fields calls).map Field.name).Nodup ∧
        ((∃ s, .inSection s ∈ calls) ∨
          ∀ f ∈ Call.fields calls, f.emission.needsSection = false) := by
  rw [build_eq_ok_iff, fault?_eq_none, homeless?_after_eq_none, draft_after]

theorem build_after_eq_error_iff {e : SchemaError} :
    (after name calls).draft.build = .error e ↔
      (∃ f, RepeatsFirst Field.name (Call.fields calls) f ∧ e = .duplicateField name f.name) ∨
        ((Call.fields calls).map Field.name).Nodup ∧ (∀ s, .inSection s ∉ calls) ∧
          ∃ f, (Call.fields calls).find? (fun g => g.emission.needsSection) = some f ∧
            e = .missingSection name f.name := by
  rw [build_eq_error, fault?_eq_some]
  simp only [homeless?_after_eq_some, and_assoc, exists_and_left]
  rw [draft_after]

end

end Drafting

theorem Schema.index?_eq_some {s : Schema} {n : String} {i : Nat} :
    s.index? n = some i ↔ (s.fields[i]?).map Field.name = some n := by
  rw [index?, List.findIdx?_eq_some_iff_getElem, Option.map_eq_some_iff]
  constructor
  · rintro ⟨hlt, hname, -⟩
    exact ⟨_, List.getElem?_eq_getElem hlt, of_decide_eq_true hname⟩
  · rintro ⟨f, hat, rfl⟩
    obtain ⟨hlt, rfl⟩ := List.getElem?_eq_some_iff.mp hat
    refine ⟨hlt, decide_eq_true rfl, fun j hj => ?_⟩
    have hbound : j < s.fields.length := Nat.lt_trans hj hlt
    have hne := List.pairwise_iff_getElem.mp s.names_nodup j i (by simpa) (by simpa) hj
    simpa using hne

theorem Schema.field?_eq (s : Schema) (n : String) :
    s.field? n = (s.index? n).bind fun i => s.fields[i]? :=
  List.find?_eq_bind_findIdx?_getElem?

namespace Registry

def registerAll (schemas : List Schema) : Except SchemaError Registry := schemas.foldlM register empty

theorem registers_new {r : Registry} {schemas : List Schema}
    (h : Draft.firstRepeated? (r.schemas.map Schema.name) (schemas.map Schema.name) = none) :
    ∃ r', schemas.foldlM register r = .ok r' ∧ r'.schemas = schemas.reverse ++ r.schemas := by
  -- On what is still to be registered; the names that are taken are those of the registry so far.
  induction schemas generalizing r with
  | nil => exact ⟨r, rfl, rfl⟩
  | cons s rest ih =>
    rw [List.map_cons, Draft.firstRepeated?] at h
    split at h
    · cases h
    · next hnew =>
      obtain ⟨r', hrest, hschemas⟩ := ih (r := ⟨s :: r.schemas,
        List.nodup_cons.mpr ⟨hnew, r.names_nodup⟩⟩) h
      refine ⟨r', ?_, ?_⟩
      · rw [List.foldlM_cons, register, dif_neg hnew]
        exact hrest
      · rw [hschemas, List.reverse_cons, List.append_assoc, List.singleton_append]

theorem refuses_repeated {r : Registry} {schemas : List Schema} {n : String}
    (h : Draft.firstRepeated? (r.schemas.map Schema.name) (schemas.map Schema.name) = some n) :
    schemas.foldlM register r = .error (.duplicateSection n) := by
  induction schemas generalizing r with
  | nil => cases h
  | cons s rest ih =>
    rw [List.map_cons, Draft.firstRepeated?] at h
    rw [List.foldlM_cons, register]
    split at h
    · next hold =>
      cases h
      rw [dif_pos hold]
      rfl
    · next hnew =>
      rw [dif_neg hnew]
      exact ih h

variable {schemas : List Schema} {r : Registry}

theorem registerAll_eq_ok_iff :
    (∃ r, registerAll schemas = .ok r) ↔ (schemas.map Schema.name).Nodup := by
  rw [← Draft.firstRepeated?_eq_none_iff_nodup]
  cases h : Draft.firstRepeated? [] (schemas.map Schema.name) with
  | none =>
    obtain ⟨r, hr, -⟩ := registers_new (r := empty) h
    exact ⟨fun _ => rfl, fun _ => ⟨r, hr⟩⟩
  | some n =>
    have hrefused : registerAll schemas = .error (.duplicateSection n) :=
      refuses_repeated (r := empty) h
    rw [hrefused]
    exact ⟨nofun, nofun⟩

theorem registerAll_eq_error_iff {e : SchemaError} :
    registerAll schemas = .error e ↔
      ∃ s, RepeatsFirst Schema.name schemas s ∧ e = .duplicateSection s.name := by
  cases h : Draft.firstRepeated? [] (schemas.map Schema.name) with
  | none =>
    obtain ⟨r, hr, -⟩ := registers_new (r := empty) h
    rw [registerAll, hr]
    refine ⟨nofun, ?_⟩
    rintro ⟨s, hs, -⟩
    rw [Draft.firstRepeated?_of_repeats hs] at h
    cases h
  | some n =>
    have hrefused : registerAll schemas = .error (.duplicateSection n) :=
      refuses_repeated (r := empty) h
    rw [hrefused, Except.error.injEq]
    constructor
    · rintro rfl
      obtain ⟨s, hs, rfl⟩ := Draft.firstRepeated?_map_eq_some.mp h
      exact ⟨s, hs, rfl⟩
    · rintro ⟨s, hs, rfl⟩
      rw [Draft.firstRepeated?_of_repeats hs] at h
      cases h
      rfl

theorem mem_registerAll (h : registerAll schemas = .ok r) {s : Schema} :
    s ∈ r.schemas ↔ s ∈ schemas := by
  have hnodup := registerAll_eq_ok_iff.mp ⟨r, h⟩
  obtain ⟨r', hr', hschemas⟩ :=
    registers_new (r := empty) (Draft.firstRepeated?_eq_none_iff_nodup.mpr hnodup)
  rw [registerAll, hr'] at h
  cases h
  rw [hschemas, empty, List.append_nil, List.mem_reverse]

theorem schema?_registerAll (h : registerAll schemas = .ok r) {n : String} {s : Schema} :
    r.schema? n = some s ↔ s ∈ schemas ∧ s.name = n := by
  rw [← mem_registerAll h]
  constructor
  · exact mem_of_schema?
  · rintro ⟨hmem, rfl⟩
    exact find?_of_nodup r.names_nodup hmem

end Registry

end CrowdScenario

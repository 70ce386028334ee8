import CrowdScenario.Proofs.Compilation.Places
import CrowdScenario.Proofs.Encoding.Failures
import CrowdScenario.Proofs.Resolution.History
import CrowdScenario.Proofs.Tree.Failures

/-!
# The failures of a compilation

Values have the kind of their field whatever was asked of a tree before. In a description of a crowd
simulation the kinds fit the ways in which values are written, so that a compilation can only fail
for reasons that are up to the author or the scene (`CompileError.Expected`).
-/

namespace CrowdScenario

open Resolution

section
variable {registry : Registry} {root : Node}

namespace Encoding

theorem respects_run (ctx : Context) (hbuilt : root.Built registry) (s : Step) (w : Writer) :
    Respects root (fun _ => True) (fun _ => True) ((s.run ctx root).run w) := by
  cases s with
  | field here schema f =>
    rw [Step.run, run_encodeField]
    refine (respects_resolve ctx hbuilt here f.name (.all root schema)).bind fun v _ => ?_
    exact .still (perform_writeValue_memory schema f _ v w)
  | distribution here schema slot =>
    rw [Step.run, run_encodeDistribution]
    refine (respects_distribution ctx hbuilt here (.all root schema)).bind fun d _ => ?_
    exact .still fun m => by rw [perform_put]

theorem respects_steps {ctx : Context} {bad : CompileError → Prop} {ss : List Step}
    (hss : ∀ s ∈ ss, ∀ w, Respects root (fun _ => True) bad ((s.run ctx root).run w)) (w : Writer) :
    Respects root (fun _ => True) bad ((runAll ctx root ss).run w) := by
  induction ss generalizing w with
  | nil => exact .pure trivial
  | cons s ss ih =>
    rw [runAll, StateT.run_bind]
    refine (hss s List.mem_cons_self w).bind fun p _ => ?_
    exact ih (fun s' hs' => hss s' (List.mem_cons_of_mem _ hs')) p.2

theorem respects_runAll (ctx : Context) (hbuilt : root.Built registry) (ss : List Step)
    (w : Writer) :
    Respects root (fun _ => True) (fun _ => True) ((runAll ctx root ss).run w) :=
  respects_steps (fun s _ => respects_run ctx hbuilt s) w

theorem kinded_of_runAll {ctx : Context} (hbuilt : root.Built registry) {ss : List Step}
    {w : Writer} {m : Memo} (h : Comes (runAll ctx root ss) .empty .empty w m) : m.Kinded root :=
  ((respects_runAll ctx hbuilt ss .empty).of_ok (Memo.Kinded.empty root) h).2

end Encoding

namespace Operation

theorem respects_inSection {here : Address} {f : Node → Resolution Answer}
    (h : ∀ n, Respects root (fun _ => True) (fun _ => True) (f n)) :
    Respects root (fun _ => True) (fun _ => True) (inSection root here f) := by
  unfold inSection
  cases root.at? here with
  | none => exact .pure trivial
  | some n => exact h n

theorem respects_inDistribution {here : Address} {f : Schema → Slot → Resolution Answer}
    (h : ∀ schema slot, Respects root (fun _ => True) (fun _ => True) (f schema slot)) :
    Respects root (fun _ => True) (fun _ => True) (inDistribution root here f) := by
  refine respects_inSection fun n => ?_
  cases n.slot? with
  | none => exact .pure trivial
  | some slot => exact h n.schema slot

theorem respects_run (ctx : Context) (hbuilt : root.Built registry) (op : Operation) :
    Respects root (fun _ => True) (fun _ => True) (op.run ctx root) := by
  cases op with
  | resolve here name =>
    exact respects_inSection fun n =>
      (respects_resolve ctx hbuilt here name (.all root n.schema)).bind fun _ _ => .pure trivial
  | lookup here name =>
    refine respects_inSection fun n => ?_
    have hlookup := respects_lookup ctx hbuilt here n.schema name
    exact (hlookup.weaken (fun _ h => h) fun _ _ => trivial).bind fun _ _ => .pure trivial
  | tryResolve expression =>
    have hresolve := respects_resolveReference ctx hbuilt expression
    exact (hresolve.weaken (fun _ h => h) fun _ _ => trivial).bind fun _ _ => .pure trivial
  | mustResolve expression =>
    have hrequire := respects_requireReference ctx hbuilt expression
    exact (hrequire.weaken (fun _ h => h) fun _ _ => trivial).bind fun _ _ => .pure trivial
  | kind here =>
    exact respects_inDistribution fun schema _ =>
      (respects_distributionKind ctx hbuilt here (.all root schema)).bind fun _ _ => .pure trivial
  | value here =>
    exact respects_inDistribution fun schema _ =>
      (respects_distribution ctx hbuilt here (.all root schema)).bind fun _ _ => .pure trivial
  | write here w =>
    exact respects_inDistribution fun schema slot =>
      (Encoding.respects_run ctx hbuilt (.distribution here schema slot) w).bind fun _ _ =>
        .pure trivial
  | encode here w =>
    refine respects_inSection fun n => ?_
    rw [Encoding.encodeNode_eq_runAll]
    exact (Encoding.respects_runAll ctx hbuilt _ w).bind fun _ _ => .pure trivial

/-- Whatever was asked of a tree, and whatever came of it, memory is well kinded. -/
theorem kinded_after (ctx : Context) (hbuilt : root.Built registry) (history : List Operation)
    {m : Memo} (hm : m.Kinded root) : (after ctx root history m).Kinded root := by
  induction history generalizing m with
  | nil => exact hm
  | cons op rest ih => exact ih (respects_run ctx hbuilt op m hm).2

end Operation

end

namespace Encoding

section
variable {root : Node}

mutual

theorem at?_of_mem_steps (hbelow : ∀ here n, root.at? here = some n → ∀ p ∈ n.children,
      root.at? (here ++ [p.1]) = some p.2) (here : Address) {there : Address} {schema : Schema}
      {slot : Slot} : ∀ n, root.at? here = some n → .distribution there schema slot ∈ steps here n →
        ∃ c, root.at? there = some c ∧ c.schema = schema ∧ c.slot? = some slot
  | ⟨schema, some slot, members, children⟩, hn, hs => by
    rw [steps] at hs
    cases List.mem_singleton.mp hs
    exact ⟨_, hn, rfl, rfl⟩
  | ⟨schema, none, members, children⟩, hn, hs => by
    rw [steps, List.mem_append] at hs
    rcases hs with hs | hs
    · obtain ⟨f, -, hf⟩ := List.mem_map.mp hs
      cases hf
    · exact at?_of_mem_stepsBelow hbelow here children (hbelow here _ hn) hs

theorem at?_of_mem_stepsBelow (hbelow : ∀ here n, root.at? here = some n → ∀ p ∈ n.children,
      root.at? (here ++ [p.1]) = some p.2) (here : Address) {there : Address} {schema : Schema}
      {slot : Slot} : ∀ children : List (String × Node),
        (∀ p ∈ children, root.at? (here ++ [p.1]) = some p.2) →
          .distribution there schema slot ∈ stepsBelow here children →
            ∃ c, root.at? there = some c ∧ c.schema = schema ∧ c.slot? = some slot
  | [], _, hs => by
    rw [stepsBelow] at hs
    cases hs
  | (name, n) :: rest, hat, hs => by
    rw [stepsBelow, List.mem_append] at hs
    rcases hs with hs | hs
    · exact at?_of_mem_steps hbelow (here ++ [name]) n (hat (name, n) List.mem_cons_self) hs
    · exact at?_of_mem_stepsBelow hbelow here rest (fun p hp => hat p (List.mem_cons_of_mem _ hp)) hs

end

end

end Encoding

namespace Layout

/-- What the fields of crowd simulations have in common: what is to be written has the form for it,
and only a few of them are special, by their place. -/
def ordinary (id : FieldId) (f : Field) : Bool :=
  f.emission.suits f.kind &&
    (match f.kind with
      | .choice _ => id = ⟨[], "type"⟩
      | _ => true) &&
    (match f.emission with
      | .seconds _ => id = ⟨["time"], "end_time"⟩
      | .sceneFile _ => id = ⟨["scene"], "file"⟩
      | _ => true) &&
    (!f.bare || id = ⟨["scene"], "file"⟩)

def typeField : Field :=
  ⟨"type", .choice Schema.simulationVariants, some (.text "flow"), .leadingByte⟩

def fileField : Field := ⟨"file", .sceneFile, none, .sceneFile Coordinate.sceneFile.element⟩

def scaleField : Field := .float "scale" Coordinate.sceneScale.element

theorem ordinary_of_mem_places : ∀ p ∈ places, ∀ s ∈ Registry.standard.schemas, s.name = p.2.1 →
    ∀ f ∈ s.fields, ordinary ⟨p.1, f.name⟩ f = true := by
  decide

theorem numbers_of_distribution : ∀ p ∈ places, p.2.2.isSome = true →
    ∀ s ∈ Registry.standard.schemas, s.name = p.2.1 →
      (∀ f ∈ s.fields, f.kind.isNested = false) ∧
        ∀ k ∈ DistributionKind.all, ∀ name ∈ [k.firstName, k.secondName],
          (s.field? name).map Field.kind = some .float := by
  decide

section
variable {members : Json.Members} {root n : Node} {id : FieldId} {f : Field}

theorem ordinary_of_field? (hroot : Node.ofDescription .standard members = .ok root)
    (hfield : root.field? id = some (n, f)) : ordinary id f = true := by
  obtain ⟨hn, hf⟩ := Node.field?_eq_some.mp hfield
  obtain ⟨hmem, hname⟩ := Schema.mem_of_field? hf
  have hknown := ((Node.built_ofDescription hroot).of_at? hn).mem_schemas
  have hplace := ordinary_of_mem_places _ (mem_places_of_at? hroot hn) n.schema hknown rfl f hmem
  rwa [hname] at hplace

theorem suits_of_ordinary (h : ordinary id f = true) : f.emission.suits f.kind = true := by
  simp only [ordinary, Bool.and_eq_true] at h
  exact h.1.1.1

theorem type_of_choice {variants : List Variant} (h : ordinary id f = true)
    (hkind : f.kind = .choice variants) : id.path = "type" := by
  simp only [ordinary, hkind, Bool.and_eq_true, decide_eq_true_eq] at h
  rw [h.1.1.2]
  rfl

theorem endTime_of_seconds {element : Element} (h : ordinary id f = true)
    (hemission : f.emission = .seconds element) : id.path = "time.end_time" := by
  simp only [ordinary, hemission, Bool.and_eq_true, decide_eq_true_eq] at h
  rw [h.1.2]
  rfl

theorem file_of_scene {element : Element} (h : ordinary id f = true)
    (hemission : f.emission = .sceneFile element) : id = ⟨["scene"], "file"⟩ := by
  simp only [ordinary, hemission, Bool.and_eq_true, decide_eq_true_eq] at h
  exact h.1.2

theorem file_of_bare (h : ordinary id f = true) (hbare : f.bare = true) :
    id.path = "scene.file" := by
  simp only [ordinary, hbare, Bool.and_eq_true, Bool.not_true, Bool.false_or,
    decide_eq_true_eq] at h
  rw [h.2]
  rfl

end

end Layout

/-- Expectations that an input never disappoints, since only fields of the fitting kind have them. -/
def CompileError.mismatches : List String := ["enum", "section with a wire id", "scalar field"]

/-- The failures that the compilation of a crowd simulation may end in, with the only places of those
that have few. -/
def CompileError.Expected : CompileError → Prop
  | .unknownSectionType _ _ => False
  | .unknownEnumValue _ path => path = "type"
  | .missingField path => path = "scene.file"
  | .invalidValue _ expected _ => expected ∉ mismatches
  | .valueOutOfRange path _ _ => path = "time.end_time"
  | .encode path _ => path = "scene.geometry" ∨ path = "scene.file"
  | _ => True

namespace Layout

section
variable {members : Json.Members} {root : Node} {e : CompileError}

theorem expected_of_ofTree (h : e.OfTree .standard) : e.Expected := by
  have hforms : ∀ x ∈ Node.forms, x ∉ CompileError.mismatches := by decide
  cases e with
  | unknownSectionType name path => exact Registry.not_standard_lacks name h
  | unknownField field owner => trivial
  | invalidValue path expected found => exact hforms expected h
  | _ => cases h

theorem expected_of_admits (hroot : Node.ofDescription .standard members = .ok root)
    (h : root.Admits e) : e.Expected := by
  have hreadings : ∀ x ∈ Input.readings, x ∉ CompileError.mismatches := by decide
  cases e with
  | unknownSectionType name path => cases h
  | unknownEnumValue value path =>
    obtain ⟨id, n, f, variants, hfield, hkind, rfl⟩ := h
    exact type_of_choice (ordinary_of_field? hroot hfield) hkind
  | missingField path =>
    obtain ⟨id, n, f, hfield, hbare, rfl⟩ := h
    exact file_of_bare (ordinary_of_field? hroot hfield) hbare
  | invalidValue path expected found => exact hreadings expected h
  | valueOutOfRange path value detail => cases h
  | encode path cause => cases h
  | _ => trivial

theorem expected_of_writeFailure {settings : Settings} {id : FieldId} {f : Field} {v : Value}
    {m : Memo} (hordinary : ordinary id f = true) (hv : f.kind.holds v = true)
    (h : Encoding.WriteFailure settings id v m f.emission e) :
    e.Expected ∧ ∀ path expected found, e ≠ .invalidValue path expected found := by
  have haccepts := Emission.accepts_of_suits (suits_of_ordinary hordinary) hv
  generalize hemission : f.emission = emission at h haccepts
  cases h with
  | form hrefused =>
    rw [hrefused] at haccepts
    cases haccepts
  | seconds => exact ⟨endTime_of_seconds hordinary hemission, nofun⟩
  | scene hnamed hmem hrefused =>
    refine ⟨?_, nofun⟩
    have hid := file_of_scene hordinary hemission
    have hpath := Encoding.path_of_mem_sceneEntries hmem
    rw [hid] at hpath
    exact hpath

end

end Layout

namespace Encoding

/-- Where a step writes a value that it has resolved, the value has the form that is written. -/
def Step.MeetsKinds (ctx : Context) (root : Node) (m : Memo) : Step → Prop
  | .field here schema f => ∀ v m', perform (resolve ctx root here schema f.name) m = (.ok v, m') →
      ∀ w path expected found, (perform ((writeValue ctx schema f ⟨here, f.name⟩ v).run w) m').1 ≠
        .error (.invalidValue path expected found)
  | .distribution here schema _ => ∀ kind m1,
      perform (distributionKind ctx root here schema) m = (.ok kind, m1) →
        ∀ first m2, perform (resolve ctx root here schema kind.firstName) m1 = (.ok first, m2) →
          first.float?.isSome = true ∧
            ∀ second m3, perform (resolve ctx root here schema kind.secondName) m2 =
              (.ok second, m3) → second.float?.isSome = true

section
variable {members : Json.Members} {root : Node} {ctx : Context} {m m' : Memo} {here : Address}

theorem field_of_mem_steps (hroot : Node.ofDescription .standard members = .ok root)
    {schema : Schema} {f : Field} (hs : .field here schema f ∈ steps [] root) :
    ∃ n, root.field? ⟨here, f.name⟩ = some (n, f) ∧ n.schema = schema ∧ f ∈ schema.fields ∧
      f.emission ≠ .skip ∧ Layout.ordinary ⟨here, f.name⟩ f = true := by
  obtain ⟨⟨n, hn, rfl⟩, hf, hskip⟩ := of_mem_steps_root (Node.built_ofDescription hroot) hs
  have hfield : root.field? ⟨here, f.name⟩ = some (n, f) :=
    Node.field?_eq_some.mpr ⟨hn, n.schema.field?_of_mem hf⟩
  exact ⟨n, hfield, rfl, hf, hskip, Layout.ordinary_of_field? hroot hfield⟩

theorem distribution_of_mem_steps (hroot : Node.ofDescription .standard members = .ok root)
    {schema : Schema} {slot : Slot} (hs : .distribution here schema slot ∈ steps [] root) :
    (∀ f ∈ schema.fields, f.kind.isNested = false) ∧
      ∀ k : DistributionKind, ∀ name ∈ [k.firstName, k.secondName],
        ∃ n f, root.field? ⟨here, name⟩ = some (n, f) ∧ f.kind = .float := by
  have hbuilt := Node.built_ofDescription hroot
  obtain ⟨n, hn, rfl, hslot⟩ :=
    at?_of_mem_steps (fun _ _ hn _ hp => hbuilt.at?_child hn hp) [] root rfl hs
  have hplace := Layout.mem_places_of_at? hroot hn
  rw [hslot] at hplace
  obtain ⟨hplain, hnumbers⟩ := Layout.numbers_of_distribution _ hplace rfl n.schema
    (hbuilt.of_at? hn).mem_schemas rfl
  refine ⟨hplain, fun k name hname => ?_⟩
  have hk : k ∈ DistributionKind.all := by
    cases k <;> decide
  obtain ⟨f, hf, hkind⟩ := Option.map_eq_some_iff.mp (hnumbers k hk name hname)
  exact ⟨n, f, Node.field?_eq_some.mpr ⟨hn, hf⟩, hkind⟩

theorem fails_field (hroot : Node.ofDescription .standard members = .ok root)
    {schema : Schema} {f : Field} (hs : .field here schema f ∈ steps [] root)
    (hm : m.Kinded root) {v : Value}
    (hresolve : perform (resolve ctx root here schema f.name) m = (.ok v, m')) {w : Writer}
    {e : CompileError}
    (h : (perform ((writeValue ctx schema f ⟨here, f.name⟩ v).run w) m').1 = .error e) :
    e.Expected ∧ ∀ path expected found, e ≠ .invalidValue path expected found := by
  obtain ⟨n, hfield, rfl, hf, hskip, hordinary⟩ := field_of_mem_steps hroot hs
  have hplain := Emission.plain_of_suits (Layout.suits_of_ordinary hordinary) hskip
  rw [resolve_of_mem ctx here hf hplain] at hresolve
  obtain ⟨hfits, -⟩ := (respects_resolveField ctx (Node.built_ofDescription hroot) _).of_ok hm hresolve
  have hv := hfits n f hfield
  exact Layout.expected_of_writeFailure hordinary hv
    (failure_of_writeValue hf hskip (Prod.ext h rfl))

/-- A step fails for a reason that is to be expected, if it does. -/
theorem expected_of_step (hroot : Node.ofDescription .standard members = .ok root) {s : Step}
    (hs : s ∈ steps [] root) (hm : m.Kinded root) {w : Writer} {e : CompileError}
    (h : perform ((s.run ctx root).run w) m = (.error e, m')) : e.Expected := by
  have hbuilt := Node.built_ofDescription hroot
  cases s with
  | field here schema f =>
    rcases fails_encodeField h with hfails | ⟨v, m1, hresolve, hwrite⟩
    · obtain ⟨n, hfield, rfl, hf, hskip, hordinary⟩ := field_of_mem_steps hroot hs
      have hplain := Emission.plain_of_suits (Layout.suits_of_ordinary hordinary) hskip
      rw [resolve_of_mem ctx here hf hplain] at hfails
      exact Layout.expected_of_admits hroot
        ((respects_resolveField ctx hbuilt _).of_error hm hfails)
    · exact (fails_field hroot hs hm hresolve (congrArg Prod.fst hwrite)).1
  | distribution here schema slot =>
    obtain ⟨hplain, -⟩ := distribution_of_mem_steps hroot hs
    have hcovers : Covers root schema CompileError.Expected :=
      ⟨fun _ he => Layout.expected_of_admits hroot he, fun f hf hnested => by
        rw [hplain f hf] at hnested
        cases hnested⟩
    exact (respects_distribution ctx hbuilt here hcovers).of_error hm (fails_encodeDistribution h)

theorem number_of_resolve (hbuilt : root.Built .standard) {schema : Schema} {name : String}
    (hnumber : ∃ n f, root.field? ⟨here, name⟩ = some (n, f) ∧ f.kind = .float)
    (hm : m.Kinded root) {v : Value}
    (h : perform (resolve ctx root here schema name) m = (.ok v, m')) :
    v.float?.isSome = true ∧ m'.Kinded root := by
  obtain ⟨hfits, hafter⟩ :=
    (respects_resolve ctx hbuilt here name (.all root schema)).of_ok hm h
  obtain ⟨n, f, hfield, hkind⟩ := hnumber
  have hv := hfits n f hfield
  rw [hkind] at hv
  refine ⟨?_, hafter⟩
  cases v with
  | float x => rfl
  | _ => cases hv

theorem meetsKinds_of_mem_steps (ctx : Context)
    (hroot : Node.ofDescription .standard members = .ok root) {s : Step} (hs : s ∈ steps [] root)
    (hm : m.Kinded root) : s.MeetsKinds ctx root m := by
  have hbuilt := Node.built_ofDescription hroot
  cases s with
  | field here schema f =>
    intro v m' hresolve w path expected found hfails
    exact (fails_field hroot hs hm hresolve hfails).2 path expected found rfl
  | distribution here schema slot =>
    intro kind m1 hkind first m2 hfirst
    obtain ⟨-, hnumbers⟩ := distribution_of_mem_steps hroot hs
    obtain ⟨-, hm1⟩ :=
      (respects_distributionKind ctx hbuilt here (.all root schema)).of_ok hm hkind
    have hfirstName := hnumbers kind kind.firstName List.mem_cons_self
    have hsecondName := hnumbers kind kind.secondName (List.mem_cons_of_mem _ List.mem_cons_self)
    obtain ⟨hfloat, hm2⟩ := number_of_resolve hbuilt hfirstName hm1 hfirst
    refine ⟨hfloat, fun second m3 hsecond => ?_⟩
    exact (number_of_resolve hbuilt hsecondName hm2 hsecond).1

end

end Encoding

/-! ### Compilation -/

open Encoding

theorem compile_eq_error {settings : Settings} {registry : Registry} {ingest : Ingestor}
    {d : Description} {e : CompileError} (h : compile settings registry ingest d = .error e) :
    Node.ofDescription registry d.members = .error e ∨
      ∃ root before s behind w m m', Node.ofDescription registry d.members = .ok root ∧
        steps [] root = before ++ s :: behind ∧
        Comes (runAll ⟨settings, d.directory?, ingest⟩ root before) .empty .empty w m ∧
        perform ((s.run ⟨settings, d.directory?, ingest⟩ root).run w) m = (.error e, m') := by
  unfold compile Compilation.run at h
  cases hroot : Node.ofDescription registry d.members with
  | error c =>
    rw [hroot] at h
    cases h
    exact .inl rfl
  | ok root =>
    rw [hroot] at h
    have hencode : ∃ m, perform ((runAll ⟨settings, d.directory?, ingest⟩ root
        (steps [] root)).run .empty) .empty = (.error e, m) := by
      rw [← encodeNode_eq_runAll]
      rcases perform_bind_eq_error.mp (Prod.ext h rfl) with hfails | ⟨p, m1, -, hlast⟩
      · exact ⟨_, hfails⟩
      · cases hlast
    obtain ⟨m, hfails⟩ := hencode
    obtain ⟨before, s, behind, w1, m1, hsteps, hbefore, hs⟩ := fails_runAll hfails
    exact .inr ⟨root, before, s, behind, w1, m1, m, rfl, hsteps, hbefore, hs⟩

/-- Values have the kind of their field: those that are resolved, and all that memory has, after any
questions to any tree. So a crowd simulation is compiled without ever taking a value of another kind,
and fails only as expected, whatever the description, the settings and the scenes are. -/
theorem compile_fails_expected :
    (∀ ctx registry members root history, Node.ofDescription registry members = .ok root →
      (Operation.after ctx root history .empty).Kinded root ∧
        ∀ here n f v m', root.at? here = some n → f ∈ n.schema.fields →
          perform (resolve ctx root here n.schema f.name)
            (Operation.after ctx root history .empty) = (.ok v, m') →
              f.kind.holds v = true ∧ m'.Kinded root) ∧
    ∀ settings ingest d,
      (∀ e, compile settings .standard ingest d = .error e → e.Expected) ∧
      ∀ root before s behind w m, Node.ofDescription .standard d.members = .ok root →
        steps [] root = before ++ s :: behind →
          Comes (runAll ⟨settings, d.directory?, ingest⟩ root before) .empty .empty w m →
            s.MeetsKinds ⟨settings, d.directory?, ingest⟩ root m := by
  refine ⟨?_, fun settings ingest d => ⟨?_, ?_⟩⟩
  · intro ctx registry members root history hroot
    have hbuilt := Node.built_ofDescription hroot
    have hkinded := Operation.kinded_after ctx hbuilt history (Memo.Kinded.empty root)
    refine ⟨hkinded, fun here n f v m' hn hf hresolve => ?_⟩
    obtain ⟨hfits, hafter⟩ :=
      (respects_resolve ctx hbuilt here f.name (.all root n.schema)).of_ok hkinded hresolve
    have hfield : root.field? ⟨here, f.name⟩ = some (n, f) :=
      Node.field?_eq_some.mpr ⟨hn, n.schema.field?_of_mem hf⟩
    exact ⟨hfits n f hfield, hafter⟩
  · intro e he
    rcases compile_eq_error he with hroot | ⟨root, before, s, behind, w, m, m', hroot, hsteps,
      hbefore, hs⟩
    · exact Layout.expected_of_ofTree (Node.failure_of_ofDescription hroot)
    · have hmem : s ∈ steps [] root := by
        rw [hsteps]
        exact List.mem_append_cons_self
      exact expected_of_step hroot hmem
        (kinded_of_runAll (Node.built_ofDescription hroot) hbefore) hs
  · intro root before s behind w m hroot hsteps hbefore
    have hmem : s ∈ steps [] root := by
      rw [hsteps]
      exact List.mem_append_cons_self
    exact meetsKinds_of_mem_steps _ hroot hmem
      (kinded_of_runAll (Node.built_ofDescription hroot) hbefore)

namespace Fileless

def members : Json.Members := [("scene", .object [])]

def description : Description := ⟨members, none⟩

def tree : Node := ⟨.root, none, members, [("scene", ⟨.scene, none, [], []⟩)]⟩

def surroundings : Context := ⟨.standard, none, fun _ => .ok []⟩

end Fileless

open Fileless Layout in
theorem compile_fails_expected_fileless :
    Node.ofDescription .standard members = .ok tree ∧
      (Operation.after surroundings tree [.mustResolve "ref:scene.scale"] .empty).Kinded tree ∧
      FieldKind.holds .float (.float .zero) = true ∧
      compile .standard .standard (fun _ => .ok []) description =
        .error (.missingField "scene.file") ∧
      (CompileError.missingField "scene.file").Expected ∧
      steps [] tree = [.field [] .root typeField] ++
        .field ["scene"] .scene fileField :: [.field ["scene"] .scene scaleField] ∧
      ∃ m, (Step.field ["scene"] .scene fileField).MeetsKinds surroundings tree m := by
  obtain ⟨hkinded, hcompile⟩ := compile_fails_expected
  have hroot : Node.ofDescription .standard members = .ok tree := by cbv
  obtain ⟨hafter, hresolve⟩ :=
    hkinded surroundings .standard members tree [.mustResolve "ref:scene.scale"] hroot
  have hscale := hresolve ["scene"] ⟨.scene, none, [], []⟩ scaleField (.float .zero)
    (perform (resolve surroundings tree ["scene"] .scene "scale")
      (Operation.after surroundings tree [.mustResolve "ref:scene.scale"] .empty)).2
    rfl (by decide) (Prod.ext (by cbv) rfl)
  obtain ⟨hexpected, hsteps⟩ := hcompile .standard (fun _ => .ok []) description
  have hfails : compile .standard .standard (fun _ => .ok []) description =
      .error (.missingField "scene.file") := by cbv
  have hopening : Comes (runAll surroundings tree [.field [] .root typeField]) .empty .empty ⟨[1], 0⟩
      (perform ((runAll surroundings tree [.field [] .root typeField]).run .empty) .empty).2 :=
    Prod.ext (by cbv) rfl
  have hmeets := hsteps tree [.field [] .root typeField] (.field ["scene"] .scene fileField)
    [.field ["scene"] .scene scaleField] ⟨[1], 0⟩ _ hroot rfl hopening
  exact ⟨hroot, hafter, hscale.1, hfails, hexpected _ hfails, rfl, _, hmeets⟩

end CrowdScenario

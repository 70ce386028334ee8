import CrowdScenario.Proofs.Compilation.Order
import CrowdScenario.Proofs.Compilation.Origin

/-!
# References of a strict compilation

A strict compilation that ends in a document has followed every reference that an author wrote in a
field it has resolved. What it has not resolved are numbers of distributions: those that the kind of
the distribution does not ask for and that no field that was resolved refers to
(`compile_follows_references`).
-/

namespace CrowdScenario

namespace Plain

section
variable {ctx : Context} {root : Node} {busy busy' : List FieldId} {id : FieldId} {e : Evaluated}

theorem field_eq_ok : field ctx root busy id = .ok e ↔
    id ∉ busy ∧ id ∈ root.scalars [] ∧ ∃ n f, root.field? id = some (n, f) ∧
      evaluate ctx root n id f (field ctx root (id :: busy)) = .ok e := by
  rw [field]
  by_cases hbusy : id ∈ busy
  · simp [hbusy]
  · by_cases hid : id ∈ root.scalars []
    · rw [dif_neg hbusy, dif_pos hid]
      cases hfield : root.field? id with
      | none => simp
      | some p =>
        rcases p with ⟨n, f⟩
        simp [hbusy, hid]
    · simp [hbusy, hid]

theorem below_of_subset (h : ∀ id ∈ busy', id ∈ busy) :
    (field ctx root busy).Below (field ctx root busy') := by
  induction hn : (left root busy).length using Nat.strongRecOn generalizing busy busy' with
  | _ size ih =>
    intro id e he
    obtain ⟨hbusy, hid, n, f, hfield, hevaluate⟩ := field_eq_ok.mp he
    have hlt := length_left_lt hid hbusy
    rw [hn] at hlt
    have hsub : ∀ x ∈ id :: busy', x ∈ id :: busy :=
      List.forall_mem_cons.mpr ⟨List.mem_cons_self, fun x hx => List.mem_cons_of_mem _ (h x hx)⟩
    have hbelow := ih _ hlt hsub rfl
    have hagain := monotone_evaluate ctx root n id f _ _ hbelow e hevaluate
    exact field_eq_ok.mpr ⟨fun hmem => hbusy (h id hmem), hid, n, f, hfield, hagain⟩

end

section
variable {ctx : Context} {root n : Node} {f : Field} {id : FieldId} {e : Evaluated}

theorem follow_eq_some {expression path : String} {sources : List Source} {read : Reader}
    {input? : Option Input}
    (h : firstInput root path (.reference expression true :: sources) read = .ok input?) :
    (∃ reference, Reference.parse? expression = some reference) ∧
      ∃ v, follow root expression path read = .ok (some v) := by
  obtain ⟨v?, hfollow, hrest⟩ := Inquiry.bind_eq_ok.mp h
  have hparsed : ∃ reference, Reference.parse? expression = some reference := by
    cases hparse : Reference.parse? expression with
    | none => simp [follow, hparse, ofExcept] at hfollow
    | some reference => exact ⟨reference, rfl⟩
  cases v? with
  | none => cases hrest
  | some v => exact ⟨hparsed, v, hfollow⟩

theorem follow_path {expression path path' : String} {read : Reader} {v? : Option Value}
    (h : follow root expression path read = .ok v?) :
    follow root expression path' read = .ok v? := by
  unfold follow at h ⊢
  cases hparse : Reference.parse? expression with
  | none => simp [hparse, ofExcept] at h
  | some reference =>
    rw [hparse] at h
    exact h

theorem follow_of_field {j : Json} {expression : String}
    (hstrict : ctx.settings.strictReferences = true) (hfield : root.field? id = some (n, f))
    (hj : Json.supplied? n.members f.name = some j)
    (href : (Input.json j).reference? = some expression) (h : field ctx root [] id = .ok e) :
    (∃ reference, Reference.parse? expression = some reference) ∧
      ∃ v, follow root expression Resolution.documentPath (field ctx root []) = .ok (some v) := by
  obtain ⟨-, -, n', f', hfield', hevaluate⟩ := field_eq_ok.mp h
  rw [hfield] at hfield'
  cases hfield'
  obtain ⟨input?, hinput, -⟩ := Inquiry.bind_eq_ok.mp hevaluate
  have hsources : n.sources ctx.settings.strictReferences f = .reference expression true ::
      ((n.fallback? f.name).toList.map Source.ofDefault ++
        f.default?.toList.map Source.ofDefault) := by
    simp [Node.sources, hj, Source.ofAuthor, href, hstrict]
  rw [hsources] at hinput
  obtain ⟨hparsed, v, hfollow⟩ := follow_eq_some hinput
  have hbelow : (field ctx root [id]).Below (field ctx root []) := below_of_subset (by simp)
  exact ⟨hparsed, v, follow_path (monotone_follow root expression id.path _ _ hbelow _ hfollow)⟩

end

end Plain

namespace Encoding

theorem mem_stepsBelow {here : Address} {name : String} {n : Node} {s : Step}
    (h : s ∈ steps (here ++ [name]) n) :
    ∀ {children : List (String × Node)}, (name, n) ∈ children → s ∈ stepsBelow here children
  | [], hmem => by cases hmem
  | (name', n') :: rest, hmem => by
    rw [stepsBelow, List.mem_append]
    cases hmem with
    | head => exact .inl h
    | tail _ hmem => exact .inr (mem_stepsBelow h hmem)

/-- The steps of a section are among those of the sections around it, unless one of these is written
as a whole. -/
theorem mem_steps_of_at? {n c : Node} {here below : Address} {s : Step}
    (hwhole : ∀ path d, n.at? path = some d → d.slot? ≠ none → d.children = [])
    (hc : n.at? below = some c) (hs : s ∈ steps (here ++ below) c) : s ∈ steps here n := by
  induction below generalizing n here with
  | nil =>
    cases hc
    rwa [List.append_nil] at hs
  | cons name below ih =>
    obtain ⟨d, hd, hbelow⟩ := Option.bind_eq_some_iff.mp hc
    have hmem := mem_of_lookup hd
    have hinner : ∀ path d', d.at? path = some d' → d'.slot? ≠ none → d'.children = [] := by
      intro path d' hd'
      refine hwhole (name :: path) d' ?_
      rw [Node.at?, hd]
      exact hd'
    have hsteps : s ∈ steps (here ++ [name]) d := by
      refine ih hinner hbelow ?_
      rwa [List.append_assoc, List.singleton_append]
    rcases n with ⟨schema, _ | slot, members, children⟩
    · rw [steps]
      exact List.mem_append_right _ (mem_stepsBelow hsteps hmem)
    · have hnil : children = [] := hwhole [] _ rfl (Option.some_ne_none slot)
      rw [hnil] at hmem
      cases hmem

theorem plain_of_compile {settings : Settings} {registry : Registry} {ingest : Ingestor}
    {d : Description} {c : Compiled} {root : Node}
    (hroot : Node.ofDescription registry d.members = .ok root) (hscene : root.SingleScene)
    (hapart : root.ScenesApart) (h : compile settings registry ingest d = .ok c) :
    ∀ s ∈ steps [] root, ∃ w, s.plain ⟨settings, d.directory?, ingest⟩ .empty
      (Plain.field ⟨settings, d.directory?, ingest⟩ root []) = .ok w := by
  intro s hs
  have hbuilt := Node.built_ofDescription hroot
  obtain ⟨root', hroot', hencode⟩ := compile_eq_ok h
  rw [hroot] at hroot'
  cases hroot'
  rw [encode_eq_combine hbuilt hscene hapart] at hencode
  obtain ⟨w, hcombine, -⟩ := map_eq_ok.mp hencode
  obtain ⟨ws, hws, -⟩ := combine_eq_ok.mp hcombine
  have hmem := List.mem_map_of_mem (f := Step.alone ⟨settings, d.directory?, ingest⟩ root) hs
  rw [hws, alone_eq hscene hapart (of_mem_steps_root hbuilt hs)] at hmem
  obtain ⟨w', -, hw'⟩ := List.mem_map.mp hmem
  exact ⟨w', hw'.symm⟩

section
variable {ctx : Context} {read : Reader} {here : Address}

theorem asked_of_field {schema : Schema} {f : Field} {w : Writer} (hf : schema.field? f.name = some f)
    (hplain : f.kind.isNested = false)
    (h : (Step.field here schema f).plain ctx .empty read = .ok w) :
    ∃ e, read ⟨here, f.name⟩ = .ok e := by
  obtain ⟨e, he, -⟩ := Inquiry.bind_eq_ok.mp h
  rw [Plain.resolve, hf] at he
  simp only [hplain] at he
  exact ⟨e, he⟩

theorem resolve_distribution {name : String} {f : Field}
    (hf : Schema.distribution.field? name = some f) (hplain : f.kind.isNested = false) :
    Plain.resolve here .distribution name = Plain.ask ⟨here, name⟩ := by
  rw [Plain.resolve, hf]
  simp [hplain]

theorem asked_of_number {name : String} {x : Binary64} {f : Field}
    (hf : Schema.distribution.field? name = some f) (hplain : f.kind.isNested = false)
    (h : Plain.distributionNumber here .distribution name read = .ok x) :
    ∃ e, read ⟨here, name⟩ = .ok e := by
  rw [Plain.distributionNumber, resolve_distribution hf hplain] at h
  obtain ⟨e, he, -⟩ := Inquiry.bind_eq_ok.mp h
  exact ⟨e, he⟩

theorem asked_of_distribution {slot : Slot} {w : Writer}
    (h : (Step.distribution here .distribution slot).plain ctx .empty read = .ok w) :
    ∃ kind, Plain.distributionKind here .distribution read = .ok kind ∧
      ∀ name, name = Schema.kindField ∨ name = kind.firstName ∨ name = kind.secondName →
        ∃ e, read ⟨here, name⟩ = .ok e := by
  obtain ⟨d, hd, -⟩ := Inquiry.bind_eq_ok.mp h
  obtain ⟨kind, hkind, hrest⟩ := Inquiry.bind_eq_ok.mp hd
  obtain ⟨first, hfirst, hrest⟩ := Inquiry.bind_eq_ok.mp hrest
  obtain ⟨second, hsecond, -⟩ := Inquiry.bind_eq_ok.mp hrest
  refine ⟨kind, hkind, ?_⟩
  rintro name (rfl | rfl | rfl)
  · obtain ⟨e, he, -⟩ := Inquiry.bind_eq_ok.mp hkind
    exact ⟨e, he⟩
  · cases kind <;> exact asked_of_number rfl rfl hfirst
  · cases kind <;> exact asked_of_number rfl rfl hsecond

end

end Encoding

/-! ### Sections of a crowd simulation -/

namespace Layout

def speaks : FieldKind → Bool
  | .nested title =>
    match Registry.standard.schema? title with
    | some s => s.fields.all fun f => f.kind.isNested || decide (f.emission ≠ .skip)
    | none => true
  | _ => true

structure Regular (n : Node) : Prop where
  spoken : n.slot? = none → ∀ f ∈ n.schema.fields, f.kind.isNested = false → f.emission ≠ .skip
  whole : n.slot? ≠ none → n.schema = .distribution ∧ n.children = []

section
variable {members : Json.Members} {root n : Node} {here : Address}

theorem regular_of_buildChild {f : Field} (hspeaks : speaks f.kind = true)
    (h : Node.buildChild .standard here members f = .ok (some n)) : Regular n := by
  have hgrown := Node.grown_of_buildChild h
  obtain ⟨j, schema, -, hcase⟩ := Node.buildChild_eq_some h
  rcases hcase with ⟨title, block, hkind, hschema, -, hbuild⟩ | ⟨slot, hkind, -⟩
  · obtain ⟨children, -, rfl⟩ := Node.build_eq_ok hbuild
    refine ⟨fun _ g hg hplain => ?_, fun hslot => absurd rfl hslot⟩
    rw [hkind] at hspeaks
    simp only [speaks, hschema] at hspeaks
    have hg' := List.all_eq_true.mp hspeaks g hg
    simpa [hplain] using hg'
  · obtain ⟨block, children, rfl⟩ := of_distribution hkind h
    refine ⟨nofun, fun _ => ⟨rfl, ?_⟩⟩
    cases hgrown with
    | inl hbuild =>
      have hplain : ∀ g ∈ Schema.distribution.fields, g.kind.isNested = false := by decide
      exact Node.buildChildren_eq_nil hplain hbuild
    | inr hnil => exact hnil

theorem regular_of_at? (hroot : Node.ofDescription .standard members = .ok root)
    (hn : root.at? here = some n) : Regular n := by
  rcases List.eq_nil_or_concat' here with rfl | ⟨above, name, rfl⟩
  · cases hn
    obtain ⟨schema, hschema, hbuild⟩ := Node.ofDescription_eq_ok hroot
    cases hschema
    obtain ⟨children, -, rfl⟩ := Node.build_eq_ok hbuild
    have hspoken : ∀ f ∈ Schema.root.fields, f.kind.isNested = false → f.emission ≠ .skip := by
      decide
    exact ⟨fun _ => hspoken, fun hslot => absurd rfl hslot⟩
  · obtain ⟨p, hp, -, f, hf, -, hbuild⟩ := Node.field_of_at? hroot hn
    have hspeaks : ∀ s ∈ Registry.standard.schemas, ∀ f ∈ s.fields, speaks f.kind = true := by
      decide
    have hschema := ((Node.built_ofDescription hroot).of_at? hp).mem_schemas
    exact regular_of_buildChild (hspeaks p.schema hschema f hf) hbuild

/-- Every field that holds a value is asked for, except for a number of a distribution whose kind has
others. -/
theorem asked_or_other {ctx : Context} (hroot : Node.ofDescription .standard members = .ok root)
    (hsteps : ∀ s ∈ Encoding.steps [] root, ∃ w,
      s.plain ctx .empty (Plain.field ctx root []) = .ok w)
    {id : FieldId} {f : Field} (hfield : root.field? id = some (n, f))
    (hplain : f.kind.isNested = false) :
    (∃ e, Plain.field ctx root [] id = .ok e) ∨
      root.at? id.owner = some n ∧ n.slot? ≠ none ∧ n.schema = .distribution ∧
        ∃ kind, Plain.distributionKind id.owner .distribution (Plain.field ctx root []) = .ok kind ∧
          id.name ≠ Schema.kindField ∧ id.name ≠ kind.firstName ∧ id.name ≠ kind.secondName := by
  rcases id with ⟨here, name⟩
  obtain ⟨hn, hdeclared⟩ := Node.field?_eq_some.mp hfield
  obtain ⟨hf, rfl⟩ := Schema.mem_of_field? hdeclared
  have hwhole : ∀ path d, root.at? path = some d → d.slot? ≠ none → d.children = [] :=
    fun path d hd hslot => ((regular_of_at? hroot hd).whole hslot).2
  have hown : ∀ s ∈ Encoding.steps ([] ++ here) n, ∃ w,
      s.plain ctx .empty (Plain.field ctx root []) = .ok w :=
    fun s hs => hsteps s (Encoding.mem_steps_of_at? hwhole hn hs)
  have hregular := regular_of_at? hroot hn
  rcases n with ⟨schema, _ | slot, block, children⟩
  · have hskip := hregular.spoken rfl f hf hplain
    have hmem : Encoding.Step.field here schema f ∈
        Encoding.steps ([] ++ here) ⟨schema, none, block, children⟩ := by
      rw [Encoding.steps]
      refine List.mem_append_left _ (List.mem_map_of_mem (List.mem_filter.mpr ⟨hf, ?_⟩))
      simpa using hskip
    obtain ⟨w, hw⟩ := hown _ hmem
    exact .inl (Encoding.asked_of_field (schema.field?_of_mem hf) hplain hw)
  · obtain ⟨rfl, -⟩ := hregular.whole nofun
    have hmem : Encoding.Step.distribution here .distribution slot ∈
        Encoding.steps ([] ++ here) ⟨.distribution, some slot, block, children⟩ := by
      rw [Encoding.steps]
      exact List.mem_cons_self
    obtain ⟨w, hw⟩ := hown _ hmem
    obtain ⟨kind, hkind, hasked⟩ := Encoding.asked_of_distribution hw
    by_cases hname : f.name = Schema.kindField ∨ f.name = kind.firstName ∨ f.name = kind.secondName
    · exact .inl (hasked f.name hname)
    · rw [not_or, not_or] at hname
      exact .inr ⟨hn, nofun, rfl, kind, hkind, hname⟩

theorem kind_of_fixed {ctx : Context} {slot? : Option Slot} {j : Json}
    {children : List (String × Node)} {kind : DistributionKind}
    (hn : root.at? here = some ⟨.distribution, slot?, Node.fixedBlock j, children⟩)
    (h : Plain.distributionKind here .distribution (Plain.field ctx root []) = .ok kind) :
    kind = .normal := by
  obtain ⟨e, he, hkind⟩ := Inquiry.bind_eq_ok.mp h
  rw [Encoding.resolve_distribution (f := .silent Schema.kindField .text) rfl rfl] at he
  obtain ⟨-, -, n, f, hfield, hevaluate⟩ := Plain.field_eq_ok.mp he
  obtain ⟨hn', hf⟩ := Node.field?_eq_some.mp hfield
  rw [hn] at hn'
  cases hn'
  cases hf
  cases hevaluate
  cases hkind
  rfl

/-- A reference stands in a field that holds a value, or in one with a distribution around it. -/
theorem supplied_of_refers (hroot : Node.ofDescription .standard members = .ok root)
    {id : FieldId} {expression : String} (h : root.Refers members id expression) :
    ∃ n f j, Json.supplied? n.members f.name = some j ∧ f.kind.isNested = false ∧
      (Input.json j).reference? = some expression ∧
      (root.field? id = some (n, f) ∨
        ∃ here, root.field? ⟨here, DistributionKind.normal.firstName⟩ = some (n, f) ∧
          n.members = Node.fixedBlock j) := by
  obtain ⟨n, f, j, hfield, hj, href⟩ := h
  obtain ⟨hn, hf⟩ := Node.field?_eq_some.mp hfield
  obtain ⟨hmem, hname⟩ := Schema.mem_of_field? hf
  have hsingle : ∀ block, j ≠ .object block := by
    rintro block rfl
    cases href
  cases Node.origin_of_at? hroot hn with
  | value _ _ _ _ written single _ _ _ =>
    -- Nothing is written below a value.
    rw [Json.suppliedAt?_append written, single] at hj
    cases hj
  | block hchildren written =>
    rw [written, ← hname] at hj
    cases hplain : f.kind.isNested with
    | false => exact ⟨n, f, j, hj, hplain, href, .inl hfield⟩
    | true =>
      obtain ⟨child?, hchild, hbelow⟩ := Node.child_of_mem_fields hchildren hmem
      cases child? with
      | none =>
        rcases Node.buildChild_eq_none hchild with hnested | hnone
        · rw [hplain] at hnested
          cases hnested
        · rw [hj] at hnone
          cases hnone
      | some c =>
        obtain ⟨schema, slot, hkind, rfl⟩ := Node.fixed_of_value hchild hj hsingle
        obtain ⟨_, _, hstandard⟩ := of_distribution hkind hchild
        cases hstandard
        have hc := (Node.built_ofDescription hroot).at?_child hn (hbelow _ rfl)
        have hmean : Json.supplied? (Node.fixedBlock j) DistributionKind.normal.firstName =
            some j := by
          cases j with
          | string text => rfl
          | _ => cases href
        exact ⟨_, .parameter DistributionKind.normal.firstName, j, hmean, rfl, href,
          .inr ⟨_, Node.field?_eq_some.mpr ⟨hc, rfl⟩, rfl⟩⟩

end

end Layout

open Layout

/-- What a compilation has found is what its fields are. -/
theorem Compilation.field_of_value? {settings : Settings} {registry : Registry} {ingest : Ingestor}
    {d : Description} {root : Node} (hroot : Node.ofDescription registry d.members = .ok root)
    (hscene : root.SingleScene) {id : FieldId} {v : Value}
    (h : (run settings registry ingest d).2.value? id = some v) :
    ∃ e, Plain.field ⟨settings, d.directory?, ingest⟩ root [] id = .ok e := by
  have hpreserves : Preserves ⟨settings, d.directory?, ingest⟩ root
      (encode ⟨settings, d.directory?, ingest⟩ root) :=
    (Encoding.preserves_encodeNode hscene [] root .empty).bind fun _ => .still fun _ => rfl
  obtain ⟨found, hkeeps⟩ := hpreserves .empty [] Memo.Keeps.empty
  have hmemory : (run settings registry ingest d).2 =
      (Resolution.perform (encode ⟨settings, d.directory?, ingest⟩ root) .empty).2 := by
    rw [run, hroot]
    rfl
  rw [hmemory, hkeeps.values] at h
  obtain ⟨e, he, -⟩ := Option.map_eq_some_iff.mp h
  exact ⟨e, hkeeps.sound.field_eq (List.forall_mem_nil _) he⟩

/-- A number of a distribution that the kind of the distribution does not ask for, and that has no value
in memory because no other field has asked for it. -/
def Node.Idle (ctx : Context) (root : Node) (m : Memo) (id : FieldId) : Prop :=
  m.value? id = none ∧ ∃ n kind, root.at? id.owner = some n ∧ n.slot? ≠ none ∧
    (Resolution.perform (Resolution.distributionKind ctx root id.owner n.schema) .empty).1 =
      .ok kind ∧
    id.name ≠ Schema.kindField ∧ id.name ≠ kind.firstName ∧ id.name ≠ kind.secondName

/-- If a strict compilation ends in a document, then every reference of an author is well formed and
leads to a value, except in numbers that the kind of their distribution does not ask for and that the
compilation has not resolved for any other field either. -/
theorem compile_follows_references {settings : Settings} (hstrict : settings.strictReferences = true)
    {ingest : Ingestor} {d : Description} {c : Compiled}
    (h : compile settings .standard ingest d = .ok c) :
    ∃ root, Node.ofDescription .standard d.members = .ok root ∧
      ∀ id expression, root.Refers d.members id expression →
        root.Idle ⟨settings, d.directory?, ingest⟩ (Compilation.run settings .standard ingest d).2
            id ∨
          (∃ reference, Reference.parse? expression = some reference) ∧
            ∃ v, (Resolution.perform (Resolution.resolveReference ⟨settings, d.directory?, ingest⟩
              root expression) .empty).1 = .ok (some v) := by
  obtain ⟨root, hroot, -⟩ := compile_eq_ok h
  have hbuilt := Node.built_ofDescription hroot
  obtain ⟨hscene, hapart⟩ := scenes_of_description hroot
  have hsteps := Encoding.plain_of_compile hroot hscene hapart h
  refine ⟨root, hroot, fun id expression hrefers => ?_⟩
  rw [(Agrees.resolveReference hscene expression).fresh]
  obtain ⟨n, f, j, hj, hplain, href, hplace⟩ := supplied_of_refers hroot hrefers
  rcases hplace with hfield | ⟨here, hfield, hfixed⟩
  · rcases asked_or_other hroot hsteps hfield hplain with ⟨e, he⟩ | ⟨hn, hslot, hschema, kind, hkind,
      hothers⟩
    · exact .inr (Plain.follow_of_field hstrict hfield hj href he)
    · cases hvalue : (Compilation.run settings .standard ingest d).2.value? id with
      | some v =>
        obtain ⟨e, he⟩ := Compilation.field_of_value? hroot hscene hvalue
        exact .inr (Plain.follow_of_field hstrict hfield hj href he)
      | none =>
        refine .inl ⟨hvalue, n, kind, hn, hslot, ?_, hothers⟩
        rw [hschema, (Agrees.distributionKind hscene id.owner .distribution).fresh]
        exact hkind
  · -- The value alone is the mean of a normal distribution, which asks for it.
    rcases asked_or_other hroot hsteps hfield hplain with ⟨e, he⟩ | ⟨hn, -, hschema, kind, hkind,
      -, hfirst, -⟩
    · exact .inr (Plain.follow_of_field hstrict hfield hj href he)
    · rcases n with ⟨schema, slot?, block, children⟩
      cases hfixed
      cases hschema
      cases kind_of_fixed hn hkind
      exact absurd rfl hfirst

namespace Bounded

def forward : Json.Members :=
  [("distribution", .string "normal"), ("from", .string "ref:fov.forward.mean")]

def fov : Json.Members := [("backward", .string "ref:fov.forward.from"), ("forward", .object forward)]

/-- A normal distribution has no use for its bound, to which another distribution refers. -/
def description : Description where
  members := [("fov", .object fov)]
  directory? := none

def bound : FieldId := ⟨["fov", "forward"], "from"⟩

theorem compile_description :
    compile .standard .standard (fun _ => .ok []) description = .ok
      ⟨[1, 5, 0, 1, 2, 0, 0, 0, 0, 0, 0, 0, 0, 0, 0, 0, 0, 0, 0, 0, 0,
        5, 0, 2, 2, 0, 0, 0, 0, 0, 0, 0, 0, 0, 0, 0, 0, 0, 0, 0, 0], 2⟩ := by
  cbv

theorem field?_bound : (Node.ofDescription .standard description.members).map (fun root =>
    (root.field? bound).isSome) = .ok true := by
  cbv

theorem value?_bound :
    ((Compilation.run .standard .standard (fun _ => .ok []) description).2.value? bound).isSome =
      true := by
  cbv

end Bounded

open Bounded in
theorem compile_follows_references_bound :
    Settings.standard.strictReferences = true ∧
      (∃ c, compile .standard .standard (fun _ => .ok []) description = .ok c) ∧
      ∃ root, Node.ofDescription .standard description.members = .ok root ∧
        root.Refers description.members bound "ref:fov.forward.mean" ∧
        ∃ v, (Resolution.perform (Resolution.resolveReference ⟨.standard, none, fun _ => .ok []⟩ root
          "ref:fov.forward.mean") .empty).1 = .ok (some v) := by
  have hstrict : Settings.standard.strictReferences = true := rfl
  obtain ⟨root, hroot, hfollows⟩ := compile_follows_references hstrict compile_description
  have hbound := field?_bound
  rw [hroot] at hbound
  obtain ⟨⟨n, f⟩, hfield⟩ := Option.isSome_iff_exists.mp (Except.ok.inj hbound)
  have hrefers : root.Refers description.members bound "ref:fov.forward.mean" :=
    ⟨n, f, .string "ref:fov.forward.mean", hfield, rfl, by decide⟩
  refine ⟨hstrict, ⟨_, compile_description⟩, root, hroot, hrefers, ?_⟩
  rcases hfollows _ _ hrefers with ⟨hnone, -⟩ | ⟨-, hv⟩
  · have hvalue := value?_bound
    rw [hnone] at hvalue
    cases hvalue
  · exact hv

namespace Aimless

def forward : Json.Members := [("distribution", .string "normal"), ("from", .string "ref:nowhere")]

def fov : Json.Members := [("backward", .string "ref:fov.forward.mean"), ("forward", .object forward)]

/-- Backward there is a value alone, and forward a bound, which no normal distribution has. -/
def description : Description where
  members := [("fov", .object fov)]
  directory? := none

def compiled : Compiled where
  bytes := [1, 5, 0, 1, 2, 0, 0, 0, 0, 0, 0, 0, 0, 0, 0, 0, 0, 0, 0, 0, 0,
    5, 0, 2, 2, 0, 0, 0, 0, 0, 0, 0, 0, 0, 0, 0, 0, 0, 0, 0, 0]
  recordCount := 2

theorem compile_description :
    compile .standard .standard (fun _ => .ok []) description = .ok compiled := by
  cbv

theorem field?_bound : (Node.ofDescription .standard description.members).map (fun root =>
    (root.field? ⟨["fov", "forward"], "from"⟩).isSome) = .ok true := by
  cbv

end Aimless

open Aimless in
/-- Nothing is asked of a bound of a normal distribution, so that it may lead nowhere. -/
theorem compile_idle_reference :
    Settings.standard.strictReferences = true ∧
      compile .standard .standard (fun _ => .ok []) description = .ok compiled ∧
      ∃ root, Node.ofDescription .standard description.members = .ok root ∧
        root.Refers description.members ⟨["fov", "forward"], "from"⟩ "ref:nowhere" ∧
        (Resolution.perform (Resolution.resolveReference ⟨.standard, none, fun _ => .ok []⟩ root
          "ref:nowhere") .empty).1 = .ok none := by
  obtain ⟨root, hroot, -⟩ := compile_eq_ok compile_description
  have hbound := field?_bound
  have hnowhere : (Node.ofDescription .standard description.members).bind (fun root =>
      (Resolution.perform (Resolution.resolveReference ⟨.standard, none, fun _ => .ok []⟩ root
        "ref:nowhere") .empty).1) = .ok none := by
    cbv
  rw [hroot] at hbound hnowhere
  obtain ⟨⟨n, f⟩, hfield⟩ := Option.isSome_iff_exists.mp (Except.ok.inj hbound)
  refine ⟨rfl, compile_description, root, hroot, ?_, hnowhere⟩
  exact ⟨n, f, .string "ref:nowhere", hfield, rfl, by decide⟩

end CrowdScenario

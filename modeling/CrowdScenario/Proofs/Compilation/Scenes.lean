import CrowdScenario.Proofs.Compilation.Order
import CrowdScenario.Proofs.Resolution.Scenes

/-!
# The geometry of scenes in a document

The encoder takes the steps of a tree one after another. At a scene it writes the geometry that its
section has in memory, which is that of the latest scene of the section. That is the scene itself if
it has just been resolved, or if its section has no other; a scene that was resolved earlier gets the
geometry of the one resolved after it (`compile_writes_scenes`).
-/

namespace CrowdScenario
namespace Encoding

section
variable (ctx : Context) (root : Node)

def runAll : List Step → Encoder Unit
  | [] => pure ()
  | s :: ss => do
    s.run ctx root
    runAll ss

theorem runAll_append (ss ss' : List Step) :
    runAll ctx root (ss ++ ss') = runAll ctx root ss >>= fun _ => runAll ctx root ss' := by
  induction ss with
  | nil => simp [runAll]
  | cons s ss ih => simp [runAll, ih]

theorem encodeFields_eq_runAll (here : Address) (schema : Schema) (fields : List Field) :
    encodeFields ctx root here schema fields =
      runAll ctx root ((fields.filter (·.emission ≠ .skip)).map (.field here schema)) := by
  induction fields with
  | nil => rfl
  | cons f rest ih =>
    by_cases hskip : f.emission = .skip
    · rw [List.filter_cons_of_neg (by simpa using hskip)]
      simpa [encodeFields, hskip] using ih
    · rw [List.filter_cons_of_pos (by simpa using hskip), List.map_cons, runAll, ← ih]
      simp [encodeFields, hskip, Step.run]

mutual

theorem encodeNode_eq_runAll (here : Address) : ∀ n : Node,
    encodeNode ctx root here n = runAll ctx root (steps here n)
  | ⟨schema, some slot, _, _⟩ => by
    rw [encodeNode, steps]
    simp [runAll, Step.run]
  | ⟨schema, none, _, children⟩ => by
    rw [encodeNode, steps, runAll_append, encodeFields_eq_runAll,
      encodeChildren_eq_runAll here children]

theorem encodeChildren_eq_runAll (here : Address) : ∀ children : List (String × Node),
    encodeChildren ctx root here children = runAll ctx root (stepsBelow here children)
  | [] => rfl
  | (name, n) :: rest => by
    rw [encodeChildren, stepsBelow, runAll_append, encodeNode_eq_runAll (here ++ [name]) n,
      encodeChildren_eq_runAll here rest]

end

end

def Comes (enc : Encoder Unit) (w : Writer) (m : Memo) (w' : Writer) (m' : Memo) : Prop :=
  Resolution.perform (enc.run w) m = (.ok ((), w'), m')

theorem comes_bind {enc next : Encoder Unit} {w w'' : Writer} {m m'' : Memo} :
    Comes (enc >>= fun _ => next) w m w'' m'' ↔
      ∃ w' m', Comes enc w m w' m' ∧ Comes next w' m' w'' m'' := by
  simp only [Comes, StateT.run_bind]
  rw [Resolution.perform_bind]
  cases Resolution.perform (enc.run w) m with
  | mk result m' =>
    cases result with
    | error e => simp
    | ok p =>
      rcases p with ⟨⟨⟩, w'⟩
      simp

section
variable {ctx : Context} {root : Node} {w w' : Writer} {m m' : Memo}

theorem comes_lift_bind {α : Type} {step : Resolution α} {next : α → Encoder Unit} :
    Comes (do let a ← step; next a) w m w' m' ↔
      ∃ a m1, Resolution.perform step m = (.ok a, m1) ∧ Comes (next a) w m1 w' m' := by
  simp only [Comes, StateT.run_bind, StateT.run_monadLift, monadLift_self, bind_assoc, pure_bind]
  rw [Resolution.perform_bind]
  cases Resolution.perform step m with
  | mk result m1 => cases result <;> simp

theorem comes_put {path : String} {e : Entry} :
    Comes (put path e) w m w' m' ↔ Plain.put path e w = .ok w' ∧ m' = m := by
  rw [Comes, perform_put]
  cases Plain.put path e w with
  | error c => simp [Except.map]
  | ok w1 => simp [Except.map, eq_comm]

theorem comes_putAll {list : List (String × Entry)} :
    Comes (putAll list) w m w' m' ↔ Plain.putAll list w = .ok w' ∧ m' = m := by
  rw [Comes, perform_putAll]
  cases Plain.putAll list w with
  | error c => simp [Except.map]
  | ok w1 => simp [Except.map, eq_comm]

theorem comes_writeValue {schema : Schema} {f : Field} {id : FieldId} {v : Value}
    (h : Comes (writeValue ctx schema f id v) w m w' m') :
    m' = m ∧ ((f.emission = .leadingByte ∧ ∃ code, w' = w.byte code) ∨
      f.emission ≠ .leadingByte ∧ ∃ owner list, schema.owner = some owner ∧
        Resolution.perform (entries ctx owner id v f.emission) m = (.ok list, m) ∧
        Plain.putAll list w = .ok w') := by
  have hmemory : (Resolution.perform ((writeValue ctx schema f id v).run w) m).2 = m :=
    perform_writeValue_memory schema f id v w m
  have hstill := h
  unfold Comes at hstill
  rw [hstill] at hmemory
  refine ⟨hmemory, ?_⟩
  unfold writeValue at h
  split at h
  · next hleading =>
    obtain ⟨code, m1, -, hmodify⟩ := comes_lift_bind.mp h
    cases hmodify
    exact .inl ⟨hleading, code, rfl⟩
  · next hleading =>
    cases howner : schema.owner with
    | none =>
      rw [howner] at h
      cases h
    | some owner =>
      rw [howner] at h
      obtain ⟨list, m1, hresult, hput⟩ := comes_lift_bind.mp h
      have hentries : (Resolution.perform (entries ctx owner id v f.emission) m).2 = m :=
        perform_entries_memory owner id v f.emission m
      rw [hresult] at hentries
      cases hentries
      exact .inr ⟨hleading, owner, list, rfl, hresult, (comes_putAll.mp hput).1⟩

theorem comes_encodeField {here : Address} {schema : Schema} {f : Field}
    (h : Comes (encodeField ctx root here schema f) w m w' m') :
    ∃ v, Resolution.perform (Resolution.resolve ctx root here schema f.name) m = (.ok v, m') ∧
      Comes (writeValue ctx schema f ⟨here, f.name⟩ v) w m' w' m' := by
  obtain ⟨v, m1, hresolve, hwrite⟩ := comes_lift_bind.mp h
  obtain ⟨rfl, -⟩ := comes_writeValue hwrite
  exact ⟨v, hresolve, hwrite⟩

theorem comes_encodeDistribution {here : Address} {schema : Schema} {slot : Slot}
    (h : Comes (encodeDistribution ctx root here schema slot) w m w' m') :
    ∃ d, Resolution.perform (Resolution.distribution ctx root here schema) m = (.ok d, m') ∧
      Plain.put here.path (.distribution slot.coordinate d) w = .ok w' := by
  obtain ⟨d, m1, hresolve, hput⟩ := comes_lift_bind.mp h
  obtain ⟨hwritten, rfl⟩ := comes_put.mp hput
  exact ⟨d, hresolve, hwritten⟩

/-- A step goes on with what was written, and leaves the geometry of the latest scenes in memory. -/
theorem comes_step {s : Step} (h : Comes (s.run ctx root) w m w' m') :
    (∃ bs, w'.bytes = w.bytes ++ bs) ∧ (m.Staged ctx root → m'.Staged ctx root) := by
  cases s with
  | field here schema f =>
    obtain ⟨v, hresolve, hwrite⟩ := comes_encodeField h
    refine ⟨?_, fun hm => ?_⟩
    · obtain ⟨-, ⟨-, code, rfl⟩ | ⟨-, owner, list, -, -, hput⟩⟩ := comes_writeValue hwrite
      · exact ⟨[code], rfl⟩
      · obtain ⟨records, -, rfl⟩ := putAll_eq_ok hput
        exact ⟨records.flatten, rfl⟩
    · have hstaged := Resolution.stages_resolve here schema f.name m hm
      rwa [hresolve] at hstaged
  | distribution here schema slot =>
    obtain ⟨d, hresolve, hput⟩ := comes_encodeDistribution h
    refine ⟨?_, fun hm => ?_⟩
    · obtain ⟨bs, -, rfl⟩ := put_eq_ok hput
      exact ⟨bs, rfl⟩
    · have hstaged := Resolution.stages_distribution here schema m hm
      rwa [hresolve] at hstaged

theorem comes_runAll {ss : List Step} (h : Comes (runAll ctx root ss) w m w' m') :
    (∃ bs, w'.bytes = w.bytes ++ bs) ∧ (m.Staged ctx root → m'.Staged ctx root) := by
  induction ss generalizing w m with
  | nil =>
    cases h
    exact ⟨⟨[], (List.append_nil _).symm⟩, id⟩
  | cons s ss ih =>
    obtain ⟨w1, m1, hstep, hrest⟩ := comes_bind.mp h
    obtain ⟨⟨bs, hbs⟩, hstaged⟩ := comes_step hstep
    obtain ⟨⟨bs', hbs'⟩, hstaged'⟩ := ih hrest
    refine ⟨⟨bs ++ bs', ?_⟩, fun hm => hstaged' (hstaged hm)⟩
    rw [hbs', hbs, List.append_assoc]

/-! ### The step of a scene -/

/-- What the step of a scene writes: the geometry of the latest scene of the section, and then the
location of the scene itself. The latest is the scene itself unless it was resolved before its turn
and the section has another. -/
inductive WritesScene (ctx : Context) (root : Node) (here : Address) (schema : Schema) (f : Field)
    (element : Element) (before after : Memo) (bs : Bytes) : Prop
  | mk {owner : Section} {file : String} {own written : List Geometry} {latest : FieldId × Value}
      {records : List Bytes}
      (owned : schema.owner = some owner)
      (named : after.value? ⟨here, f.name⟩ = some (.text file))
      (ingested : ctx.ingest (ctx.scenePath file) = .ok own)
      (resolved : after.latestScene? root here = some latest)
      (staged : ctx.geometry? latest.2 = some written)
      (recorded : List.Forall₂ (fun e bs => e.toBytes? = .ok bs)
        (sceneRecords ctx.settings ⟨owner, element⟩ file written) records)
      (bytes : bs = records.flatten)
      (fresh : before.value? ⟨here, f.name⟩ = none ∨
        (∀ g ∈ schema.fields, g.kind = .sceneFile → g = f) → written = own) :
      WritesScene ctx root here schema f element before after bs

theorem perform_entries_scene {owner : Section} {id : FieldId} {v : Value} {element : Element}
    {list : List (String × Entry)} {geometry : List Geometry}
    (hside : m.side? id.owner geometrySide = some (.geometry geometry))
    (h : Resolution.perform (entries ctx owner id v (.sceneFile element)) m = (.ok list, m')) :
    ∃ file, v = .text file ∧ list = sceneEntries ctx.settings ⟨owner, element⟩ id file geometry := by
  cases v with
  | text file =>
    have hmemory := Resolution.perform_get m
    simp only [entries, require, Value.text?, pure_bind] at h
    rw [Resolution.perform_bind_ok hmemory, hside] at h
    cases h
    exact ⟨file, rfl, rfl⟩
  | _ => cases h

/-- The latest scene of a section is the one just resolved, if that was not resolved before or is the
only one. -/
theorem latestScene_eq_self {here : Address} {n : Node} {f : Field} {v : Value}
    {latest : FieldId × Value} (hn : root.at? here = some n) (hf : f ∈ n.schema.fields)
    (hkind : f.kind = .sceneFile) (hvalue : m'.value? ⟨here, f.name⟩ = some v)
    (hfresh : m.value? ⟨here, f.name⟩ = none → ∃ rest, m'.values = (⟨here, f.name⟩, v) :: rest)
    (hlatest : m'.latestScene? root here = some latest)
    (hcase : m.value? ⟨here, f.name⟩ = none ∨
      ∀ g ∈ n.schema.fields, g.kind = .sceneFile → g = f) : latest.2 = v := by
  rcases hcase with hnone | hsingle
  · have hfield : root.field? ⟨here, f.name⟩ = some (n, f) :=
      Node.field?_eq_some.mpr ⟨hn, n.schema.field?_of_mem hf⟩
    have hscene : root.isScene ⟨here, f.name⟩ = true :=
      Node.isScene_eq_true.mpr ⟨n, f, hfield, hkind⟩
    obtain ⟨rest, hrest⟩ := hfresh hnone
    have hnewest : m'.latestScene? root here = some (⟨here, f.name⟩, v) := by
      rw [Memo.latestScene?, hrest, List.find?_cons]
      simp [hscene]
    rw [hlatest] at hnewest
    cases hnewest
    rfl
  · obtain ⟨howner, hscene⟩ := Memo.scene_of_latestScene? hlatest
    have hlookup := Memo.value?_of_latestScene? hlatest
    obtain ⟨n', g, hfield, hkind'⟩ := Node.isScene_eq_true.mp hscene
    obtain ⟨hn', hg⟩ := Node.field?_eq_some.mp hfield
    rw [howner, hn] at hn'
    cases hn'
    obtain ⟨hmem, hname⟩ := Schema.mem_of_field? hg
    rw [hsingle g hmem hkind'] at hname
    have hsame : latest.1 = ⟨here, f.name⟩ := by
      rw [← howner, hname]
    rw [hsame, hvalue] at hlookup
    exact (Option.some.inj hlookup).symm

theorem ingest_of_geometry? {file : String} {geometry : List Geometry}
    (h : ctx.geometry? (.text file) = some geometry) :
    ctx.ingest (ctx.scenePath file) = .ok geometry := by
  cases hresult : ctx.ingest (ctx.scenePath file) with
  | error e => simp [Context.geometry?, Value.text?, hresult, Except.toOption] at h
  | ok geometry' => simpa [Context.geometry?, Value.text?, hresult, Except.toOption] using h

theorem writesScene_of_step {here : Address} {n : Node} {f : Field} {element : Element}
    (hm : m.Staged ctx root) (hn : root.at? here = some n) (hf : f ∈ n.schema.fields)
    (hkind : f.kind = .sceneFile) (hemission : f.emission = .sceneFile element)
    (h : Comes ((Step.field here n.schema f).run ctx root) w m w' m') :
    ∃ bs, w'.bytes = w.bytes ++ bs ∧ WritesScene ctx root here n.schema f element m m' bs := by
  have hdeclared := n.schema.field?_of_mem hf
  have hfield : root.field? ⟨here, f.name⟩ = some (n, f) := Node.field?_eq_some.mpr ⟨hn, hdeclared⟩
  have hscene : root.isScene ⟨here, f.name⟩ = true := Node.isScene_eq_true.mpr ⟨n, f, hfield, hkind⟩
  obtain ⟨v, hresolve, hwrite⟩ := comes_encodeField h
  have hstaged := Resolution.stages_resolve here n.schema f.name m hm
  rw [hresolve] at hstaged
  rw [Resolution.resolve, hdeclared] at hresolve
  simp only [hkind, FieldKind.isNested] at hresolve
  obtain ⟨hvalue, hfresh⟩ := Resolution.value?_of_resolveField hresolve
  obtain ⟨latest, hlatest⟩ := Memo.exists_latestScene? hvalue rfl hscene
  obtain ⟨-, hlatestScene⟩ := Memo.scene_of_latestScene? hlatest
  obtain ⟨written, hwritten⟩ :=
    hstaged.ingested latest (List.mem_of_find?_eq_some hlatest) hlatestScene
  obtain ⟨own, hown⟩ := hstaged.ingested _ (mem_of_lookup hvalue) hscene
  have hside := hstaged.latest here
  rw [hlatest, Option.bind_some, hwritten] at hside
  obtain ⟨-, ⟨hleading, -⟩ | ⟨-, owner, list, hsection, hentries, hput⟩⟩ := comes_writeValue hwrite
  · rw [hemission] at hleading
    cases hleading
  rw [hemission] at hentries
  obtain ⟨file, rfl, rfl⟩ := perform_entries_scene hside hentries
  obtain ⟨records, hrecords, rfl⟩ := putAll_eq_ok hput
  rw [map_snd_sceneEntries] at hrecords
  refine ⟨records.flatten, rfl, hsection, hvalue, ingest_of_geometry? hown, hlatest, hwritten,
    hrecords, rfl, fun hcase => ?_⟩
  rw [latestScene_eq_self hn hf hkind hvalue hfresh hlatest hcase, hown] at hwritten
  exact (Option.some.inj hwritten).symm

end

end Encoding

open Encoding

/-- A document has, at the step of every scene, the geometry of the scene of its section that was
resolved last, and then the location of the scene itself. If the scene was not resolved before its
turn, or is the only one of its section, then the geometry is its own. -/
theorem compile_writes_scenes {settings : Settings} {registry : Registry} {ingest : Ingestor}
    {d : Description} {c : Compiled} (h : compile settings registry ingest d = .ok c) :
    ∃ root, Node.ofDescription registry d.members = .ok root ∧
      ∀ before here schema f behind element,
        steps [] root = before ++ .field here schema f :: behind → f.kind = .sceneFile →
          f.emission = .sceneFile element →
            ∃ w m w' m' bs rest,
              Comes (runAll ⟨settings, d.directory?, ingest⟩ root before) .empty .empty w m ∧
              Comes ((Step.field here schema f).run ⟨settings, d.directory?, ingest⟩ root)
                w m w' m' ∧
              WritesScene ⟨settings, d.directory?, ingest⟩ root here schema f element m m' bs ∧
              w'.bytes = w.bytes ++ bs ∧ c.bytes = w'.bytes ++ rest := by
  obtain ⟨root, hroot, hencode⟩ := compile_eq_ok h
  refine ⟨root, hroot, fun before here schema f behind element hsteps hkind hemission => ?_⟩
  have hbuilt := Node.built_ofDescription hroot
  have hof : (Step.field here schema f).Of root := by
    refine of_mem_steps_root hbuilt ?_
    rw [hsteps]
    exact List.mem_append_right _ List.mem_cons_self
  obtain ⟨⟨n, hn, rfl⟩, hf, -⟩ := hof
  have hrun : ∃ w m, Comes (encodeNode ⟨settings, d.directory?, ingest⟩ root [] root) .empty .empty
      w m ∧ c = .ofWriter w := by
    rw [Compilation.encode, Resolution.perform_bind] at hencode
    cases hresult : Resolution.perform
        ((encodeNode ⟨settings, d.directory?, ingest⟩ root [] root).run .empty) .empty with
    | mk result m =>
      rw [hresult] at hencode
      cases result with
      | error e => cases hencode
      | ok p =>
        cases hencode
        exact ⟨p.2, m, hresult, rfl⟩
  obtain ⟨last, m3, hcomes, rfl⟩ := hrun
  rw [encodeNode_eq_runAll, hsteps, runAll_append] at hcomes
  obtain ⟨w, m, hbefore, hafter⟩ := comes_bind.mp hcomes
  obtain ⟨w', m', hstep, hbehind⟩ := comes_bind.mp hafter
  have hstaged := (comes_runAll hbefore).2 .empty
  obtain ⟨bs, hbytes, hscene⟩ := writesScene_of_step hstaged hn hf hkind hemission hstep
  obtain ⟨⟨rest, hrest⟩, -⟩ := comes_runAll hbehind
  exact ⟨w, m, w', m', bs, rest, hbefore, hstep, hscene, hbytes, hrest⟩

namespace Borrowed

def scene (name : String) (element : Element) : Field := ⟨name, .sceneFile, none, .sceneFile element⟩

def schema : Schema where
  name := Schema.rootName
  owner := some .scene
  fields := [scene "first" 1, scene "second" 2, scene "third" 3]
  names_nodup := by decide
  owner_of_emission := nofun

def registry : Registry where
  schemas := [schema]
  names_nodup := by decide

/-- The third scene is resolved for the first one, before the second. -/
def description : Description where
  members := [("first", .string "ref:third"), ("second", .string "a"), ("third", .string "b")]
  directory? := none

def ingest : Ingestor := fun path => .ok [.width (if path = "a" then 1 else 2)]

def compiled : Compiled where
  bytes := [1, 0, 17, 0, 2, 1, 0, 1, 0, 1, 98, 1, 0, 17, 0, 1, 1, 0, 2, 0, 1, 97,
    1, 0, 17, 0, 1, 1, 0, 3, 0, 1, 98]
  recordCount := 6

theorem compile_description : compile .standard registry ingest description = .ok compiled := by
  cbv

theorem steps_description {root : Node}
    (h : Node.ofDescription registry description.members = .ok root) :
    steps [] root = [.field [] schema (scene "first" 1), .field [] schema (scene "second" 2)] ++
      .field [] schema (scene "third" 3) :: [] := by
  obtain ⟨schema', hschema, hbuild⟩ := Node.ofDescription_eq_ok h
  cases hschema
  obtain ⟨children, hchildren, rfl⟩ := Node.build_eq_ok hbuild
  cases Node.buildChildren_eq_nil (by decide) hchildren
  rfl

end Borrowed

open Borrowed in
theorem compile_writes_scenes_third :
    compile .standard registry ingest description = .ok compiled ∧
      (scene "third" 3).kind = .sceneFile ∧ (scene "third" 3).emission = .sceneFile 3 ∧
      ∃ root m m' bs, Node.ofDescription registry description.members = .ok root ∧
        steps [] root = [.field [] schema (scene "first" 1), .field [] schema (scene "second" 2)] ++
          .field [] schema (scene "third" 3) :: [] ∧
        WritesScene ⟨.standard, none, ingest⟩ root [] schema (scene "third" 3) 3 m m' bs ∧
        bs <:+: compiled.bytes := by
  obtain ⟨root, hroot, hscenes⟩ := compile_writes_scenes compile_description
  have hsteps := steps_description hroot
  obtain ⟨w, m, w', m', bs, rest, -, -, hwrites, hbs, hrest⟩ :=
    hscenes _ [] schema (scene "third" 3) [] 3 hsteps rfl rfl
  refine ⟨compile_description, rfl, rfl, root, m, m', bs, hroot, hsteps, hwrites, w.bytes, rest, ?_⟩
  rw [hrest, hbs]

open Borrowed in
/-- The third scene, which is as wide as 2, is written with the width of the second one. -/
theorem compile_borrows_geometry :
    compile .standard registry ingest description = .ok compiled ∧
      Json.supplied? description.members "third" = some (.string "b") ∧
      ingest "b" = .ok [.width 2] ∧
      ∃ lead width name, compiled.bytes = lead ++ width ++ name ∧
        (Entry.text ⟨.scene, 3⟩ "b").toBytes? = .ok name ∧
        (Entry.geometry (.width 1)).toBytes? = .ok width ∧
        (Entry.geometry (.width 2)).toBytes? ≠ .ok width := by
  refine ⟨compile_description, rfl, rfl, compiled.bytes.take 22, [1, 0, 17, 0, 1],
    [1, 0, 3, 0, 1, 98], rfl, ?_, ?_, ?_⟩
  · cbv
  · cbv
  · have hown : (Entry.geometry (.width 2)).toBytes? = .ok [1, 0, 17, 0, 2] := by
      cbv
    rw [hown]
    simp

end CrowdScenario

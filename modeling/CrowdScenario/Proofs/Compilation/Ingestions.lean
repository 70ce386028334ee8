import CrowdScenario.Proofs.Compilation.Arity
import CrowdScenario.Proofs.Compilation.References
import CrowdScenario.Proofs.Resolution.Ingestions

/-!
# The ingestion of a compilation

The only scene of a crowd simulation is the file of its scene block, so that a compilation ingests
at most once: a second attempt would follow a success of the same field. A compilation that ends in
a document has ingested the file that the document names, exactly if there is a scene block
(`scene_ingested_once`). The name is what the author wrote or what that refers to, which neither the
directory nor the ingestor has a part in.
-/

namespace CrowdScenario

open Resolution

def Record.sceneFile? : Record → Option String
  | .sceneFile name => some name
  | _ => none

def Document.sceneFiles (d : Document) : List String := d.records.filterMap Record.sceneFile?

namespace Plain

section
variable {ctx ctx' : Context} {root n : Node} {id : FieldId} {f : Field} {e : Evaluated}

variable (ctx ctx') in
theorem finish_congr {kind : FieldKind} (h : kind ≠ .sceneFile) (id : FieldId)
    (input? : Option Input) : finish ctx id kind input? = finish ctx' id kind input? := by
  cases kind with
  | sceneFile => exact absurd rfl h
  | _ => rfl

theorem evaluate_congr (hstrict : ctx.settings.strictReferences = ctx'.settings.strictReferences)
    (h : f.kind ≠ .sceneFile) (n : Node) (id : FieldId) :
    evaluate ctx root n id f = evaluate ctx' root n id f := by
  simp only [evaluate, hstrict, finish_congr ctx ctx' h id]

theorem field_congr (hstrict : ctx.settings.strictReferences = ctx'.settings.strictReferences)
    {busy : List FieldId} (hscenes : ∀ id, root.isScene id = true → id ∈ busy) :
    field ctx root busy = field ctx' root busy := by
  induction hn : (left root busy).length using Nat.strongRecOn generalizing busy with
  | _ size ih =>
    funext id
    rw [field, field]
    by_cases hbusy : id ∈ busy
    · rw [dif_pos hbusy, dif_pos hbusy]
    · rw [dif_neg hbusy, dif_neg hbusy]
      by_cases hid : id ∈ root.scalars []
      · rw [dif_pos hid, dif_pos hid]
        cases hfield : root.field? id with
        | none => rfl
        | some p =>
          rcases p with ⟨n, f⟩
          have hkind : f.kind ≠ .sceneFile := by
            intro hkind
            exact hbusy (hscenes id (isScene_of_kind hfield hkind))
          have hlt := length_left_lt hid hbusy
          rw [hn] at hlt
          have hread : field ctx root (id :: busy) = field ctx' root (id :: busy) :=
            ih _ hlt (fun x hx => List.mem_cons_of_mem _ (hscenes x hx)) rfl
          simp only [hread, evaluate_congr hstrict hkind n id]
      · rw [dif_neg hid, dif_neg hid]

theorem field_scene_eq_ok (hfield : root.field? id = some (n, f)) (hkind : f.kind = .sceneFile)
    (h : field ctx root [] id = .ok e) :
    ∃ input? file, firstInput root id.path (n.sources ctx.settings.strictReferences f)
        (field ctx root [id]) = .ok input? ∧
      sceneFileOf id.path input? = .ok file ∧ e.value = .text file := by
  obtain ⟨-, -, n', f', hfield', hevaluate⟩ := field_eq_ok.mp h
  rw [hfield] at hfield'
  cases hfield'
  obtain ⟨input?, hinput, hfinish⟩ := Inquiry.bind_eq_ok.mp hevaluate
  have hscene : (sceneFileOf id.path input? >>= ingestScene ctx id) = .ok e := by
    rw [hkind] at hfinish
    exact hfinish
  cases hfile : sceneFileOf id.path input? with
  | error c =>
    rw [hfile] at hscene
    cases hscene
  | ok file =>
    rw [hfile] at hscene
    have hingest : ingestScene ctx id file = .ok e := hscene
    unfold ingestScene at hingest
    split at hingest
    · cases hingest
    · cases hingest
      exact ⟨input?, file, hinput, hfile, rfl⟩

/-- The only scene of a tree has the same value wherever it has one. -/
theorem scene_congr (hstrict : ctx.settings.strictReferences = ctx'.settings.strictReferences)
    (honly : ∀ id', root.isScene id' = true → id' = id) (hscene : root.isScene id = true)
    {e' : Evaluated} (h : field ctx root [] id = .ok e) (h' : field ctx' root [] id = .ok e') :
    e'.value = e.value := by
  obtain ⟨n, f, hfield, hkind⟩ := Node.isScene_eq_true.mp hscene
  obtain ⟨input?, file, hinput, hfile, hvalue⟩ := field_scene_eq_ok hfield hkind h
  obtain ⟨input?', file', hinput', hfile', hvalue'⟩ := field_scene_eq_ok hfield hkind h'
  have hread : field ctx root [id] = field ctx' root [id] :=
    field_congr hstrict fun x hx => List.mem_singleton.mpr (honly x hx)
  rw [hread, hstrict] at hinput
  cases hinput.symm.trans hinput'
  cases hfile.symm.trans hfile'
  rw [hvalue, hvalue']

end

end Plain

theorem Resolution.invariant_value (ctx : Context) (root : Node) (id : FieldId) :
    Invariant ctx root (fun _ m => m.value? id ≠ none) (fun _ m => m.value? id ≠ none) where
  weak h := h
  start _ h _ _ := h
  stop h := h
  value _ h hrun := by
    obtain ⟨hvalues, -, -⟩ := perform_complete hrun
    rw [Evaluation.value?_remember]
    split
    · exact Option.some_ne_none _
    · rw [Memo.value?, Memo.stop, hvalues]
      exact h
  failure _ h hrun := by
    obtain ⟨hvalues, -, -⟩ := perform_complete hrun
    rw [Memo.value?, hvalues]
    exact h

namespace Encoding

variable {ctx : Context} {root : Node}

theorem comes_of_encode {c : Compiled} {m : Memo}
    (h : perform (Compilation.encode ctx root) .empty = (.ok c, m)) :
    ∃ w, Comes (runAll ctx root (steps [] root)) .empty .empty w m ∧ c = .ofWriter w := by
  rw [Compilation.encode, perform_bind, encodeNode_eq_runAll] at h
  cases hresult : perform ((runAll ctx root (steps [] root)).run .empty) .empty with
  | mk result m' =>
    rw [hresult] at h
    cases result with
    | error e => cases h
    | ok p =>
      cases h
      exact ⟨p.2, hresult, rfl⟩

theorem value?_of_steps {here : Address} {schema : Schema} {f : Field} {before behind : List Step}
    {w w' : Writer} {m m' : Memo} (hf : schema.field? f.name = some f)
    (hplain : f.kind.isNested = false)
    (h : Comes (runAll ctx root (before ++ .field here schema f :: behind)) w m w' m') :
    m'.value? ⟨here, f.name⟩ ≠ none := by
  rw [runAll_append] at h
  obtain ⟨w1, m1, -, hrest⟩ := comes_bind.mp h
  obtain ⟨w2, m2, hstep, hbehind⟩ := comes_bind.mp hrest
  obtain ⟨v, hresolve, -⟩ := comes_encodeField hstep
  rw [resolve, hf] at hresolve
  simp only [hplain] at hresolve
  have hvalue : m2.value? ⟨here, f.name⟩ ≠ none := by
    rw [(value?_of_resolveField hresolve).1]
    exact Option.some_ne_none v
  exact (upholds_runAll (invariant_value ctx root ⟨here, f.name⟩) [] behind w2).value hvalue hbehind

end Encoding

/-! ### The scene of a crowd simulation -/

namespace Layout

def sceneId : FieldId := ⟨["scene"], "file"⟩

theorem scene_of_mem_places : ∀ p ∈ places, ∀ s ∈ Registry.standard.schemas, s.name = p.2.1 →
    ∀ f ∈ s.fields, f.kind = .sceneFile → (⟨p.1, f.name⟩ : FieldId) = sceneId := by
  decide

theorem slot_of_mem_places : ∀ p ∈ places, p.1 = ["scene"] → p.2.2 = none := by decide

section
variable {ctx : Context} {root n : Node} {members : Json.Members} {id : FieldId}

theorem eq_of_isScene (hroot : Node.ofDescription .standard members = .ok root)
    (h : root.isScene id = true) : id = sceneId := by
  obtain ⟨n, f, hfield, hkind⟩ := Node.isScene_eq_true.mp h
  obtain ⟨hn, hf⟩ := Node.field?_eq_some.mp hfield
  obtain ⟨hmem, hname⟩ := Schema.mem_of_field? hf
  have hknown := ((Node.built_ofDescription hroot).of_at? hn).mem_schemas
  have hplace := scene_of_mem_places _ (mem_places_of_at? hroot hn) n.schema hknown rfl f hmem hkind
  rwa [hname] at hplace

theorem of_scene_block (hroot : Node.ofDescription .standard members = .ok root)
    (hn : root.at? ["scene"] = some n) :
    root.field? sceneId = some (n, fileField) ∧ n.slot? = none ∧
      Json.suppliedAt? members ["scene", "file"] = Json.supplied? n.members "file" := by
  obtain ⟨hschema, -⟩ := steps_of_scene hroot hn
  have hslot : n.slot? = none := slot_of_mem_places _ (mem_places_of_at? hroot hn) rfl
  refine ⟨Node.field?_eq_some.mpr ⟨hn, ?_⟩, hslot, ?_⟩
  · rw [hschema]
    rfl
  · cases Node.origin_of_at? hroot hn with
    | block _ written => exact written "file"
    | value _ _ _ _ _ _ slotted _ _ =>
      rw [hslot] at slotted
      cases slotted

theorem nameless_of_supplied {supplied? : Option Json} {kind : List Record → Prop}
    {rs : List Record} (h : IfSupplied supplied? kind rs)
    (hkind : kind rs → rs.filterMap Record.sceneFile? = []) :
    rs.filterMap Record.sceneFile? = [] := by
  cases supplied? with
  | none =>
    cases h
    rfl
  | some j => exact hkind h

theorem nameless_of_slot {c : Coordinate} {here : Address} {rs : List Record}
    (h : SlotRecord ctx root c here rs) : rs.filterMap Record.sceneFile? = [] := by
  obtain ⟨d, -, rfl⟩ := h
  rfl

theorem name_of_scene {rs : List Record} (h : Scene ctx root rs) :
    ∃ file, Resolves ctx root ["scene"] .scene "file" (.text file) ∧
      rs.filterMap Record.sceneFile? = [file] := by
  obtain ⟨file, geometry, scale, hfile, -, -, rfl⟩ := h
  refine ⟨file, hfile, ?_⟩
  have hgeometry : ∀ g : List Geometry,
      (g.map Record.geometry).filterMap Record.sceneFile? = [] := by
    intro g
    rw [List.filterMap_map, List.filterMap_eq_nil_iff]
    exact fun _ _ => rfl
  have hmap := hgeometry (geometry.map fun g =>
    if ctx.settings.clampCoordinates then g.clamped else g)
  rw [List.map_map] at hmap
  rw [List.filterMap_append]
  exact congrArg (· ++ [file]) hmap

theorem Records.names {rs : List Record} (h : Records ctx root members rs) :
    (Json.supplied? members "scene" = none → rs.filterMap Record.sceneFile? = []) ∧
      (Json.supplied? members "scene" ≠ none →
        ∃ file, Resolves ctx root ["scene"] .scene "file" (.text file) ∧
          rs.filterMap Record.sceneFile? = [file]) := by
  obtain ⟨scene, time, spawn, forces, fov, density, hscene, htime, hspawn, hforces, hfov, hdensity,
    rfl⟩ := h
  have htimes : time.filterMap Record.sceneFile? = [] := by
    refine nameless_of_supplied htime ?_
    rintro ⟨x, t, tick, -, -, -, rfl⟩
    rfl
  have hspawns : spawn.filterMap Record.sceneFile? = [] := by
    refine nameless_of_supplied hspawn ?_
    rintro ⟨rate, arrivals, -, harrivals, rfl⟩
    have harrival := nameless_of_supplied harrivals nameless_of_slot
    exact harrival
  have hforce : forces.filterMap Record.sceneFile? = [] := by
    refine nameless_of_supplied hforces ?_
    rintro ⟨target, repulsion, htarget, hrepulsion, rfl⟩
    rw [List.filterMap_append, nameless_of_supplied htarget nameless_of_slot,
      nameless_of_supplied hrepulsion nameless_of_slot, List.nil_append]
  have hfovs : fov.filterMap Record.sceneFile? = [] := by
    refine nameless_of_supplied hfov ?_
    rintro ⟨forward, backward, hforward, hbackward, rfl⟩
    rw [List.filterMap_append, nameless_of_supplied hforward nameless_of_slot,
      nameless_of_supplied hbackward nameless_of_slot, List.nil_append]
  have hdensities : density.filterMap Record.sceneFile? = [] := by
    refine nameless_of_supplied hdensity ?_
    rintro ⟨enabled, low, high, -, -, -, rfl⟩
    rfl
  have hall : (scene ++ time ++ spawn ++ forces ++ fov ++ density).filterMap Record.sceneFile? =
      scene.filterMap Record.sceneFile? := by
    simp only [List.filterMap_append, htimes, hspawns, hforce, hfovs, hdensities, List.append_nil]
  rw [hall]
  cases hsupplied : Json.supplied? members "scene" with
  | none =>
    rw [hsupplied] at hscene
    cases hscene
    exact ⟨fun _ => rfl, fun hne => absurd rfl hne⟩
  | some j =>
    rw [hsupplied] at hscene
    exact ⟨nofun, fun _ => name_of_scene hscene⟩

/-- A name that an author gave to a scene: the text of what was written, or of the value that it
refers to. -/
def Named (ctx : Context) (root : Node) (members : Json.Members) (name : String) : Prop :=
  ∃ j, Json.suppliedAt? members ["scene", "file"] = some j ∧
    match (Input.json j).reference? with
    | none => (Input.json j).text? = some name
    | some expression => ∃ v, (perform (resolveReference ctx root expression) .empty).1 =
        .ok (some v) ∧ (Input.value v).text? = some name

theorem Named.eq_text {name text : String} (h : Named ctx root members name)
    (htext : Json.suppliedAt? members ["scene", "file"] = some (.string text))
    (hplain : Reference.isReference text = false) : name = text := by
  obtain ⟨j, hj, hname⟩ := h
  cases htext.symm.trans hj
  have href : (Input.json (.string text)).reference? = none := by
    simp [Input.reference?, hplain]
  rw [href] at hname
  exact (Option.some.inj hname).symm

theorem text_of_sceneFileOf {path file : String} {i : Input}
    (h : sceneFileOf path (some i) = .ok file) : i.text? = some file := by
  unfold sceneFileOf at h
  cases hi : i.text? with
  | none => simp [hi] at h
  | some file' =>
    simp only [hi] at h
    cases h
    rfl

theorem not_sceneFileOf_none {path file : String} : sceneFileOf path none ≠ .ok file := nofun

theorem named_of_field (hroot : Node.ofDescription .standard members = .ok root)
    (hn : root.at? ["scene"] = some n) {e : Evaluated} {name : String}
    (h : Plain.field ctx root [] sceneId = .ok e) (he : e.value = .text name) :
    Named ctx root members name := by
  obtain ⟨hfield, hslot, hwritten⟩ := of_scene_block hroot hn
  obtain ⟨hscene, -⟩ := scenes_of_description hroot
  obtain ⟨input?, file, hinput, hfile, hvalue⟩ := Plain.field_scene_eq_ok hfield rfl h
  rw [he] at hvalue
  cases hvalue
  have hsources : n.sources ctx.settings.strictReferences fileField =
      ((Json.supplied? n.members "file").map (Source.ofAuthor ctx.settings.strictReferences)).toList
      := by
    simp [Node.sources, Node.fallback?, hslot, fileField]
  rw [hsources] at hinput
  cases hj : Json.supplied? n.members "file" with
  | none =>
    rw [hj] at hinput
    cases hinput
    exact absurd hfile not_sceneFileOf_none
  | some j =>
    refine ⟨j, hwritten.trans hj, ?_⟩
    rw [hj, Option.map_some, Option.toList_some, Source.ofAuthor] at hinput
    cases href : (Input.json j).reference? with
    | none =>
      rw [href] at hinput
      cases hinput
      exact text_of_sceneFileOf hfile
    | some expression =>
      rw [href] at hinput
      obtain ⟨v?, hfollow, hrest⟩ := Inquiry.bind_eq_ok.mp hinput
      cases v? with
      | none =>
        cases hstrict : ctx.settings.strictReferences with
        | true =>
          rw [hstrict] at hrest
          cases hrest
        | false =>
          rw [hstrict] at hrest
          cases hrest
          exact absurd hfile not_sceneFileOf_none
      | some v =>
        cases hrest
        have hbelow : (Plain.field ctx root [sceneId]).Below (Plain.field ctx root []) :=
          Plain.below_of_subset (by simp)
        have hfresh := Plain.monotone_follow root expression sceneId.path _ _ hbelow _ hfollow
        refine ⟨v, ?_, text_of_sceneFileOf hfile⟩
        rw [(Agrees.resolveReference hscene expression).fresh]
        exact Plain.follow_path hfresh

theorem field_of_resolves_scene (hroot : Node.ofDescription .standard members = .ok root)
    {v : Value} (h : Resolves ctx root ["scene"] .scene "file" v) :
    ∃ e, Plain.field ctx root [] sceneId = .ok e ∧ e.value = v := by
  obtain ⟨hscene, -⟩ := scenes_of_description hroot
  rw [Resolves, (Agrees.resolve hscene ["scene"] .scene "file").fresh] at h
  obtain ⟨e, he, hvalue⟩ := Inquiry.bind_eq_ok.mp h
  cases hvalue
  exact ⟨e, he, rfl⟩

end

end Layout

/-! ### The log of a compilation -/

theorem compilation_run_eq_ok {settings : Settings} {registry : Registry} {ingest : Ingestor}
    {d : Description} {c : Compiled} (h : compile settings registry ingest d = .ok c) :
    ∃ root, Node.ofDescription registry d.members = .ok root ∧
      perform (Compilation.encode ⟨settings, d.directory?, ingest⟩ root) .empty =
        (.ok c, (Compilation.run settings registry ingest d).2) := by
  obtain ⟨root, hroot, hencode⟩ := compile_eq_ok h
  refine ⟨root, hroot, Prod.ext hencode ?_⟩
  rw [Compilation.run, hroot]
  rfl

namespace Layout

/-- Before the last ingestion there are only successes, and of one field nothing comes behind
them. -/
theorem length_le_of_ending {root : Node} {id : FieldId} {m : Memo} (h : m.Ending root [] [])
    (honly : ∀ id', root.isScene id' = true → id' = id) : m.ingested.length ≤ 1 := by
  obtain ⟨new, hnew, hsucceeded⟩ := h.added
  rw [List.append_nil] at hnew
  rw [← hnew] at hsucceeded
  exact Ingestion.length_le_of_spares h.thrifty.spared
    (fun i hi => honly _ (h.thrifty.scenes i hi)) hsucceeded

theorem length_ingested_le (settings : Settings) (ingest : Ingestor) (d : Description) :
    (Compilation.run settings .standard ingest d).2.ingested.length ≤ 1 := by
  cases hroot : Node.ofDescription .standard d.members with
  | error e =>
    rw [Compilation.run, hroot]
    exact Nat.zero_le 1
  | ok root =>
    have hinvariant := invariant_ingestions ⟨settings, d.directory?, ingest⟩ root []
    have hupholds := Compilation.upholds_encode hinvariant []
    have hstart : Memo.empty.Succeeding root [] [] := ⟨.empty, [], rfl, List.forall_mem_nil _⟩
    have hrun : (Compilation.run settings .standard ingest d).2 =
        (perform (Compilation.encode ⟨settings, d.directory?, ingest⟩ root) .empty).2 := by
      rw [Compilation.run, hroot]
      rfl
    rw [hrun]
    refine length_le_of_ending ?_ fun id' => eq_of_isScene hroot
    cases hencode : perform (Compilation.encode ⟨settings, d.directory?, ingest⟩ root) .empty with
    | mk result m =>
      cases result with
      | ok c => exact hinvariant.weak (hupholds.value hstart hencode)
      | error e => exact hupholds.failure hstart hencode

section
variable {ctx : Context} {root : Node} {members : Json.Members} {c : Compiled} {m : Memo}

/-- A compilation with a scene block leaves the value of the scene in memory, with the ingestion
that it came from. -/
theorem ingested_of_block {n : Node} (hroot : Node.ofDescription .standard members = .ok root)
    (hn : root.at? ["scene"] = some n)
    (h : perform (Compilation.encode ctx root) .empty = (.ok c, m)) :
    ∃ e name, Plain.field ctx root [] sceneId = .ok e ∧ e.value = .text name ∧
      ⟨sceneId, ctx.scenePath name, true⟩ ∈ m.ingested := by
  obtain ⟨hfield, -, -⟩ := of_scene_block hroot hn
  obtain ⟨-, behind, hsteps⟩ := steps_of_scene hroot hn
  obtain ⟨w, hcomes, -⟩ := Encoding.comes_of_encode h
  rw [hsteps] at hcomes
  have hvalue : m.value? sceneId ≠ none := Encoding.value?_of_steps rfl rfl hcomes
  obtain ⟨hscene, hapart⟩ := scenes_of_description hroot
  have hagrees := agrees_encode ctx (Node.built_ofDescription hroot) hscene hapart
  obtain ⟨m', found, hrun, hkeeps, -, -⟩ := hagrees.agreesAt [] .empty Memo.Keeps.empty
  cases (Prod.ext_iff.mp (h.symm.trans hrun)).2
  rw [hkeeps.values] at hvalue
  cases hfound : found.lookup sceneId with
  | none =>
    rw [hfound] at hvalue
    exact absurd rfl hvalue
  | some e =>
    have hmemory : m.value? sceneId = some e.value := by
      rw [hkeeps.values, hfound]
      rfl
    have hstart : Memo.empty.Located ctx root := nofun
    have hlocated := (Compilation.upholds_encode (invariant_located ctx root) []).value hstart h
    obtain ⟨name, hname, hmem⟩ := hlocated sceneId e.value (isScene_of_kind hfield rfl) hmemory
    exact ⟨e, name, hkeeps.sound.field_eq hkeeps.idle hfound, hname, hmem⟩

theorem ingested_of_absent (hroot : Node.ofDescription .standard members = .ok root)
    (hn : root.at? ["scene"] = none)
    (h : perform (Compilation.encode ctx root) .empty = (.ok c, m)) : m.ingested = [] := by
  have hstart : Memo.empty.Succeeding root [] [] := ⟨.empty, [], rfl, List.forall_mem_nil _⟩
  have hinvariant := invariant_ingestions ctx root []
  have hsucceeding := (Compilation.upholds_encode hinvariant []).value hstart h
  rw [List.eq_nil_iff_forall_not_mem]
  intro i hi
  have hscene := hsucceeding.thrifty.scenes i hi
  rw [eq_of_isScene hroot hscene] at hscene
  obtain ⟨n, f, hfield, -⟩ := Node.isScene_eq_true.mp hscene
  have hat : root.at? ["scene"] = some n := (Node.field?_eq_some.mp hfield).1
  rw [hn] at hat
  cases hat

end

theorem at?_scene_eq_none {root : Node} {members : Json.Members}
    (hroot : Node.ofDescription .standard members = .ok root)
    (h : Json.supplied? members "scene" = none) : root.at? ["scene"] = none := by
  rw [Option.eq_none_iff_forall_ne_some]
  intro n hn
  have hat : root.at? ([] ++ ["scene"]) = some n := hn
  obtain ⟨j, hj⟩ := Node.suppliedAt?_of_at? hroot hat
  have hsupplied : Json.supplied? members "scene" = some j := hj
  rw [h] at hsupplied
  cases hsupplied

theorem ingestions_of_compile {settings : Settings} {ingest : Ingestor} {d : Description}
    {c : Compiled} (h : compile settings .standard ingest d = .ok c) :
    ∃ root doc, Node.ofDescription .standard d.members = .ok root ∧
      Document.decode c.bytes = .ok doc ∧
      (Compilation.run settings .standard ingest d).2.ingestions =
        doc.sceneFiles.map (Context.scenePath ⟨settings, d.directory?, ingest⟩) ∧
      (Json.supplied? d.members "scene" = none → doc.sceneFiles = []) ∧
      (Json.supplied? d.members "scene" ≠ none → root.isScene sceneId = true ∧ ∃ e name,
        Plain.field ⟨settings, d.directory?, ingest⟩ root [] sceneId = .ok e ∧
          e.value = .text name ∧ doc.sceneFiles = [name] ∧
          Named ⟨settings, d.directory?, ingest⟩ root d.members name) := by
  have hlength := length_ingested_le settings ingest d
  obtain ⟨root, hroot, hencode⟩ := compilation_run_eq_ok h
  generalize (Compilation.run settings .standard ingest d).2 = m at hlength hencode ⊢
  obtain ⟨root', doc, hroot', hdecode, -, -, hrecords⟩ := document_of_compile h
  cases hroot.symm.trans hroot'
  obtain ⟨habsent, hpresent⟩ := hrecords.names
  refine ⟨root, doc, hroot, hdecode, ?_⟩
  by_cases hsupplied : Json.supplied? d.members "scene" = none
  · have hnil := ingested_of_absent hroot (at?_scene_eq_none hroot hsupplied) hencode
    have hnames : doc.sceneFiles = [] := habsent hsupplied
    rw [Memo.ingestions, hnil, hnames]
    exact ⟨rfl, fun _ => rfl, fun hne => absurd hsupplied hne⟩
  · obtain ⟨file, hfile, hnames⟩ := hpresent hsupplied
    obtain ⟨n, f, hfield⟩ := field_of_resolves hfile
    have hn := (Node.field?_eq_some.mp hfield).1
    obtain ⟨e, he, hvalue⟩ := field_of_resolves_scene hroot hfile
    obtain ⟨e', name, he', hname, hmem⟩ := ingested_of_block hroot hn hencode
    cases he.symm.trans he'
    cases hvalue.symm.trans hname
    have hnamed := named_of_field hroot hn he hvalue
    have hlog : m.ingested = [⟨sceneId, Context.scenePath ⟨settings, d.directory?, ingest⟩ file,
        true⟩] := by
      match hlist : m.ingested with
      | [] => simp [hlist] at hmem
      | [i] =>
        rw [hlist, List.mem_singleton] at hmem
        rw [hmem]
      | _ :: _ :: _ => simp [hlist] at hlength
    have hfiles : doc.sceneFiles = [file] := hnames
    refine ⟨?_, fun hnone => absurd hnone hsupplied, fun _ =>
      ⟨isScene_of_kind (of_scene_block hroot hn).1 rfl, e, file, he, hvalue, hfiles, hnamed⟩⟩
    rw [Memo.ingestions, hlog, hfiles]
    rfl

theorem sceneFiles_congr {settings settings' : Settings} {ingest ingest' : Ingestor}
    {d d' : Description} {c c' : Compiled} {doc : Document} (hmembers : d'.members = d.members)
    (hstrict : settings'.strictReferences = settings.strictReferences)
    (h : compile settings .standard ingest d = .ok c)
    (h' : compile settings' .standard ingest' d' = .ok c')
    (hdoc : Document.decode c.bytes = .ok doc) :
    ∃ doc', Document.decode c'.bytes = .ok doc' ∧ doc'.sceneFiles = doc.sceneFiles := by
  obtain ⟨root, doc1, hroot, hdecode, -, habsent, hpresent⟩ := ingestions_of_compile h
  obtain ⟨root', doc', hroot', hdecode', -, habsent', hpresent'⟩ := ingestions_of_compile h'
  rw [hmembers] at hroot' habsent' hpresent'
  cases hroot.symm.trans hroot'
  cases hdoc.symm.trans hdecode
  refine ⟨doc', hdecode', ?_⟩
  by_cases hsupplied : Json.supplied? d.members "scene" = none
  · rw [habsent hsupplied, habsent' hsupplied]
  · obtain ⟨hscene, e, name, he, hvalue, hnames, -⟩ := hpresent hsupplied
    obtain ⟨-, e', name', he', hvalue', hnames', -⟩ := hpresent' hsupplied
    have hsame := Plain.scene_congr hstrict (fun _ => eq_of_isScene hroot) hscene he' he
    rw [hvalue, hvalue'] at hsame
    cases hsame
    rw [hnames, hnames']

end Layout

open Layout

/-- Whatever is done with a tree, in whatever surroundings each time, no field is ingested again
after a success of its own. A compilation of a crowd simulation ingests at most once. If it ends in
a document then it has ingested the file that the document names, exactly if there is a scene block.
The name is what the author wrote, or what that refers to, and neither the directory nor the
ingestor makes a difference to it. -/
theorem scene_ingested_once :
    (∀ (root : Node) (steps : List (Context × Operation)),
      (Operation.history root steps .empty).ingested.reverse.Pairwise Ingestion.Spares ∧
        ∀ id, ((Operation.history root steps .empty).ingested.filter
          fun i => decide (i.field = id) && i.succeeded).length ≤ 1) ∧
    ∀ (settings : Settings) (ingest : Ingestor) (d : Description),
      (Compilation.run settings .standard ingest d).2.ingestions.length ≤ 1 ∧
      ∀ c, compile settings .standard ingest d = .ok c →
        ∃ root doc, Node.ofDescription .standard d.members = .ok root ∧
          Document.decode c.bytes = .ok doc ∧
          (Compilation.run settings .standard ingest d).2.ingestions =
            doc.sceneFiles.map (Context.scenePath ⟨settings, d.directory?, ingest⟩) ∧
          (Json.supplied? d.members "scene" = none → doc.sceneFiles = []) ∧
          (Json.supplied? d.members "scene" ≠ none → ∃ name, doc.sceneFiles = [name] ∧
            Named ⟨settings, d.directory?, ingest⟩ root d.members name) ∧
          (∀ text, Json.suppliedAt? d.members ["scene", "file"] = some (.string text) →
            Reference.isReference text = false → doc.sceneFiles = [text]) ∧
          ∀ settings' ingest' d' c', d'.members = d.members →
            settings'.strictReferences = settings.strictReferences →
            compile settings' .standard ingest' d' = .ok c' →
              ∃ doc', Document.decode c'.bytes = .ok doc' ∧ doc'.sceneFiles = doc.sceneFiles := by
  refine ⟨fun root steps => ?_, fun settings ingest d => ⟨?_, fun c h => ?_⟩⟩
  · have hempty : Memo.Thrifty root [] .empty := .empty
    have hthrifty := Operation.thrifty_history steps hempty
    exact ⟨List.pairwise_reverse.mpr hthrifty.spared, hthrifty.once⟩
  · rw [Memo.ingestions, List.length_map, List.length_reverse]
    exact length_ingested_le settings ingest d
  · obtain ⟨root, doc, hroot, hdecode, hlog, habsent, hpresent⟩ := ingestions_of_compile h
    refine ⟨root, doc, hroot, hdecode, hlog, habsent, fun hsupplied => ?_,
      fun text htext hplain => ?_, fun settings' ingest' d' c' hmembers hstrict h' =>
        sceneFiles_congr hmembers hstrict h h' hdecode⟩
    · obtain ⟨-, _, name, -, -, hnames, hnamed⟩ := hpresent hsupplied
      exact ⟨name, hnames, hnamed⟩
    · have hsupplied : Json.supplied? d.members "scene" ≠ none := by
        intro hnone
        rw [Json.suppliedAt?_of_none hnone] at htext
        cases htext
      obtain ⟨-, _, name, -, -, hnames, hnamed⟩ := hpresent hsupplied
      rw [hnames, hnamed.eq_text htext hplain]

namespace Placed

def description (file : String) : Description where
  members := [("scene", .object [("file", .string file)])]
  directory? := some "/plans/"

def ingest : Ingestor := fun _ => .ok []

def unmoved : Settings := { Settings.standard with sceneBesideDescription := false }

def compiled (file : List UInt8) : Compiled where
  bytes := [1, 1, 0, 255, 0, 4] ++ file ++ [1, 0, 19, 0, 0, 0, 0, 0, 0, 0, 0]
  recordCount := 2

def hall : Compiled := compiled [104, 97, 108, 108]

def flow : Compiled := compiled [102, 108, 111, 119]

def wide : Compiled where
  bytes := [1, 1, 0, 17, 0, 1, 1, 0, 255, 0, 4, 104, 97, 108, 108,
    1, 0, 19, 0, 0, 0, 0, 0, 0, 0, 0]
  recordCount := 3

theorem compile_hall : compile .standard .standard ingest (description "hall") = .ok hall := by cbv

theorem compile_wide :
    compile unmoved .standard (fun _ => .ok [.width 1]) (description "hall") = .ok wide := by
  cbv

end Placed

open Placed in
theorem scene_ingested_once_hall :
    compile .standard .standard ingest (description "hall") = .ok hall ∧
      (Compilation.run .standard .standard ingest (description "hall")).2.ingestions =
        ["/plans/hall"] ∧
      (∃ doc, Document.decode hall.bytes = .ok doc ∧ doc.sceneFiles = ["hall"]) ∧
      compile unmoved .standard (fun _ => .ok [.width 1]) (description "hall") = .ok wide ∧
      ∃ doc, Document.decode wide.bytes = .ok doc ∧ doc.sceneFiles = ["hall"] := by
  obtain ⟨root, doc, -, hdecode, hlog, -, -, htext, hcongr⟩ :=
    (scene_ingested_once.2 .standard ingest (description "hall")).2 _ compile_hall
  have hnames : doc.sceneFiles = ["hall"] := htext "hall" rfl (by decide)
  obtain ⟨doc', hdecode', hnames'⟩ := hcongr unmoved _ (description "hall") _ rfl rfl compile_wide
  rw [hnames] at hlog hnames'
  refine ⟨compile_hall, ?_, ⟨doc, hdecode, hnames⟩, compile_wide, doc', hdecode', hnames'⟩
  rw [hlog]
  decide

open Placed in
/-- A scene may be named by the kind of simulation: the name is then not the text that the author
wrote. -/
theorem compile_names_by_reference :
    compile .standard .standard ingest (description "ref:type") = .ok flow ∧
      Json.suppliedAt? (description "ref:type").members ["scene", "file"] =
        some (.string "ref:type") ∧
      ∃ doc, Document.decode flow.bytes = .ok doc ∧ doc.sceneFiles = ["flow"] ∧
        doc.sceneFiles ≠ ["ref:type"] := by
  have hcompile : compile .standard .standard ingest (description "ref:type") = .ok flow := by cbv
  have hdecode : Document.decode flow.bytes =
      .ok ⟨.flow, [.sceneFile "flow", .sceneScale .zero]⟩ := by
    cbv
  exact ⟨hcompile, rfl, _, hdecode, rfl, by decide⟩

end CrowdScenario

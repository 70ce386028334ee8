import CrowdScenario.Proofs.Compilation.Repairs

/-!
# Geometry of the wrong length

A tuple with too few or too many members is refused for its length, and nothing behind it is written.
Clamping pairs the members with their widths, and so it leaves out what is too much before the length
is checked: with clamping a tuple that is too long is written without the rest of its members
(`compile_refuses_arity`).
-/

namespace CrowdScenario

namespace Geometry

variable {g : Geometry}

theorem toBytes?_of_ne (h : g.members.length ≠ g.tag.arity) :
    g.toBytes? = .error (.arityMismatch g.tag g.tag.arity g.members.length) := by
  rw [toBytes?, if_neg h]

theorem toBytes?_clamped_of_lt (h : g.members.length < g.tag.arity) :
    g.clamped.toBytes? = .error (.arityMismatch g.tag g.tag.arity g.members.length) := by
  have hlen : g.clamped.members.length = g.members.length := by
    rw [clamped, List.length_zipWith]
    exact Nat.min_eq_right h.le
  have hne : g.clamped.members.length ≠ g.clamped.tag.arity := by
    rw [hlen]
    exact h.ne
  rw [toBytes?_of_ne hne, hlen]
  rfl

/-- Members beyond the length of the tag make no difference to clamped geometry. -/
theorem clamped_take (h : g.tag.arity ≤ g.members.length) :
    clamped ⟨g.tag, g.members.take g.tag.arity⟩ = g.clamped := by
  have hmembers : List.zipWith MemberWidth.clamp g.tag.layout (g.members.take g.tag.arity) =
      List.zipWith MemberWidth.clamp g.tag.layout g.members := by
    have hmin : min g.tag.layout.length g.members.length = g.tag.arity := Nat.min_eq_left h
    have hlayout : g.tag.layout.take g.tag.arity = g.tag.layout := List.take_length
    have hboth : List.zipWith MemberWidth.clamp g.tag.layout g.members = _ :=
      List.zipWith_eq_zipWith_take_min
    rw [hboth, hmin, hlayout]
  simp only [clamped, hmembers]

end Geometry

/-! ### The first steps of a crowd simulation -/

open Resolution Encoding

namespace Encoding

theorem putAll_of_refused {before behind : List (String × Entry)} {path : String} {entry : Entry}
    {cause : WireError} (hbefore : ∀ p ∈ before, ∃ bs, p.2.toBytes? = .ok bs)
    (hrefused : entry.toBytes? = .error cause) (w : Writer) :
    Plain.putAll (before ++ (path, entry) :: behind) w = .error (.encode path cause) := by
  induction before generalizing w with
  | nil =>
    rw [List.nil_append, Plain.putAll, Plain.put, Writer.put_eq, hrefused]
    rfl
  | cons p before ih =>
    obtain ⟨bs, hbs⟩ := hbefore p List.mem_cons_self
    rw [List.cons_append, Plain.putAll, Plain.put, Writer.put_eq, hbs]
    exact ih (fun q hq => hbefore q (List.mem_cons_of_mem _ hq)) _

theorem putAll_sceneEntries_of_refused {settings : Settings} (c : Coordinate) (id : FieldId)
    (file : String) {before : List Geometry} {g : Geometry} (behind : List Geometry)
    {cause : WireError}
    (hbefore : ∀ b ∈ before,
      ∃ bs, (if settings.clampCoordinates then b.clamped else b).toBytes? = .ok bs)
    (hrefused : (if settings.clampCoordinates then g.clamped else g).toBytes? = .error cause)
    (w : Writer) :
    Plain.putAll (sceneEntries settings c id file (before ++ g :: behind)) w =
      .error (.encode (joinPath id.owner.path geometrySide) cause) := by
  rw [sceneEntries, List.map_append, List.map_cons, List.append_assoc, List.cons_append]
  have hentry : (Entry.geometry (if settings.clampCoordinates then g.clamped else g)).toBytes? =
      .error cause := hrefused
  refine putAll_of_refused (fun p hp => ?_) hentry w
  obtain ⟨b, hb, rfl⟩ := List.mem_map.mp hp
  exact hbefore b hb

section
variable {ctx : Context} {root : Node}

theorem alone_of_resolves {here : Address} {schema : Schema} {f : Field} {v : Value} {m : Memo}
    (h : perform (resolve ctx root here schema f.name) .empty = (.ok v, m)) :
    (Step.field here schema f).alone ctx root =
      (perform ((writeValue ctx schema f ⟨here, f.name⟩ v).run .empty) m).1.map Prod.snd := by
  rw [Step.alone, Step.run, run_encodeField, perform_bind_ok h]

theorem geometry_of_resolves {here : Address} {n : Node} {f : Field} {file : String} {m : Memo}
    {geometry : List Geometry} (hn : root.at? here = some n) (hf : f ∈ n.schema.fields)
    (hkind : f.kind = .sceneFile)
    (h : perform (resolve ctx root here n.schema f.name) .empty = (.ok (.text file), m))
    (hingest : ctx.ingest (ctx.scenePath file) = .ok geometry) : m.geometry here = geometry := by
  have hfield : root.field? ⟨here, f.name⟩ = some (n, f) :=
    Node.field?_eq_some.mpr ⟨hn, n.schema.field?_of_mem hf⟩
  have hscene : root.isScene ⟨here, f.name⟩ = true := Node.isScene_eq_true.mpr ⟨n, f, hfield, hkind⟩
  have hempty : Memo.Staged ctx root .empty := .empty
  have hstaged := stages_resolve here n.schema f.name .empty hempty
  rw [h] at hstaged
  rw [resolve_of_mem ctx here hf (by rw [hkind]; rfl)] at h
  obtain ⟨rest, hrest⟩ := (value?_of_resolveField h).2 rfl
  have hlatest : m.latestScene? root here = some (⟨here, f.name⟩, .text file) := by
    rw [Memo.latestScene?, hrest, List.find?_cons]
    simp [hscene]
  have hvalue : ctx.geometry? (.text file) = some geometry := by
    simp [Context.geometry?, Value.text?, hingest, Except.toOption]
  have hside := hstaged.latest here
  rw [hlatest, Option.bind_some, hvalue] at hside
  rw [Memo.geometry, hside]
  rfl

end

end Encoding

namespace Layout

section
variable {ctx : Context} {root : Node} {members : Json.Members}

theorem field_of_resolves {here : Address} {schema : Schema} {name : String} {v : Value}
    (h : Resolves ctx root here schema name v) : ∃ n f, root.field? ⟨here, name⟩ = some (n, f) := by
  rw [Resolves, resolve] at h
  split at h
  · cases h
  · split at h
    · cases h
    · have hnone : Memo.empty.value? ⟨here, name⟩ = none := rfl
      rw [resolveField, resolveAmong, perform_bind_ok (perform_get .empty), hnone] at h
      simp only at h
      split at h
      · cases h
      · split at h
        · split at h
          · cases h
          · next n f hfield => exact ⟨n, f, hfield⟩
        · cases h

/-- The kind of simulation is written first, and then the scene, if there is one. -/
theorem steps_of_scene (hroot : Node.ofDescription .standard members = .ok root) {c : Node}
    (hc : root.at? ["scene"] = some c) :
    c.schema = .scene ∧ ∃ behind, steps [] root =
      [.field [] .root typeField] ++ .field ["scene"] .scene fileField :: behind := by
  have hat : root.at? ([] ++ ["scene"]) = some c := hc
  obtain ⟨j, hj⟩ := Node.suppliedAt?_of_at? hroot hat
  obtain ⟨schema, hschema, hbuild⟩ := Node.ofDescription_eq_ok hroot
  cases hschema
  obtain ⟨children, hchildren, rfl⟩ := Node.build_eq_ok hbuild
  obtain ⟨first?, rest, hfirst, hrest, rfl⟩ := Node.buildChildren_cons_eq_ok hchildren
  obtain ⟨scene?, others, hscene, -, rfl⟩ := Node.buildChildren_cons_eq_ok hrest
  cases first? with
  | some n => cases Node.isNested_of_buildChild hfirst
  | none =>
    cases scene? with
    | none =>
      have hsupplied : Json.supplied? members "scene" = some j := hj
      rcases Node.buildChild_eq_none hscene with hplain | hnone
      · cases hplain
      · cases hsupplied.symm.trans hnone
    | some n =>
      cases hc
      obtain ⟨block, below, -, hbelow, rfl⟩ := of_nested .scene rfl hscene
      cases Node.buildChildren_eq_nil (by decide) hbelow
      exact ⟨rfl, _, rfl⟩

theorem alone_typeField (hroot : Node.ofDescription .standard members = .ok root) {v : Value}
    (h : Resolves ctx root [] .root "type" v) :
    ∃ w, (Step.field [] .root typeField).alone ctx root = .ok w := by
  obtain ⟨schema, hschema, hbuild⟩ := Node.ofDescription_eq_ok hroot
  cases hschema
  obtain ⟨children, -, hn⟩ := Node.build_eq_ok hbuild
  have hfield : root.field? ⟨[], "type"⟩ = some (root, typeField) := by
    rw [hn]
    rfl
  have hresolve : perform (resolve ctx root [] .root "type") .empty = (.ok v, _) := Prod.ext h rfl
  obtain ⟨hfits, -⟩ := (respects_resolve ctx (Node.built_ofDescription hroot) [] "type"
    (.all root .root)).of_ok (Memo.Kinded.empty root) hresolve
  have hv := hfits root typeField hfield
  rw [alone_of_resolves hresolve]
  cases hwrite : (perform ((writeValue ctx .root typeField ⟨[], "type"⟩ v).run .empty)
      (perform (resolve ctx root [] .root "type") .empty).2).1 with
  | ok p => exact ⟨p.2, congrArg (Except.map Prod.snd) hwrite⟩
  | error e =>
    have hfails := failure_of_writeValue (by decide) (by decide) (Prod.ext hwrite rfl)
    have hsuits : typeField.emission.suits typeField.kind = true := rfl
    have haccepts := Emission.accepts_of_suits hsuits hv
    cases hfails with
    | form hrefused =>
      rw [haccepts] at hrefused
      cases hrefused

theorem alone_fileField (hroot : Node.ofDescription .standard members = .ok root) {file : String}
    {before behind : List Geometry} {g : Geometry} {cause : WireError}
    (h : Resolves ctx root ["scene"] .scene "file" (.text file))
    (hingest : ctx.ingest (ctx.scenePath file) = .ok (before ++ g :: behind))
    (hbefore : ∀ b ∈ before,
      ∃ bs, (if ctx.settings.clampCoordinates then b.clamped else b).toBytes? = .ok bs)
    (hrefused : (if ctx.settings.clampCoordinates then g.clamped else g).toBytes? = .error cause) :
    (Step.field ["scene"] .scene fileField).alone ctx root =
      .error (.encode "scene.geometry" cause) := by
  obtain ⟨c, f, hfield⟩ := field_of_resolves h
  obtain ⟨hc, -⟩ := Node.field?_eq_some.mp hfield
  obtain ⟨hschema, -⟩ := steps_of_scene hroot hc
  have hresolve : perform (resolve ctx root ["scene"] .scene "file") .empty =
    (.ok (.text file), _) := Prod.ext h rfl
  have hgeometry : Memo.geometry (perform (resolve ctx root ["scene"] .scene "file") .empty).2
      ["scene"] = before ++ g :: behind := by
    rw [← hschema] at hresolve ⊢
    exact geometry_of_resolves hc (f := fileField) (by rw [hschema]; decide) rfl hresolve hingest
  have hmade : (perform (entries ctx .scene ⟨["scene"], "file"⟩ (.text file) fileField.emission)
      (perform (resolve ctx root ["scene"] .scene "file") .empty).2).1 =
        .ok (sceneEntries ctx.settings Coordinate.sceneFile ⟨["scene"], "file"⟩ file
          (before ++ g :: behind)) := by
    rw [← hgeometry]
    rfl
  have hput := putAll_sceneEntries_of_refused Coordinate.sceneFile ⟨["scene"], "file"⟩ file behind
    hbefore hrefused .empty
  rw [alone_of_resolves hresolve, perform_writeValue_of_owner (by decide) rfl]
  simp only [fileField] at hmade ⊢
  simp only [hmade, hput]
  rfl

end

/-- The geometry of a compiled document is that of the scene, in the form that the settings ask
for. -/
theorem geometry_of_compile {settings : Settings} {ingest : Ingestor} {d : Description}
    {c : Compiled} {root : Node} {file : String} {geometry : List Geometry}
    (h : compile settings .standard ingest d = .ok c)
    (hroot : Node.ofDescription .standard d.members = .ok root)
    (hfile : Resolves ⟨settings, d.directory?, ingest⟩ root ["scene"] .scene "file" (.text file))
    (hingest : ingest (Context.scenePath ⟨settings, d.directory?, ingest⟩ file) = .ok geometry) :
    ∃ doc, Document.decode c.bytes = .ok doc ∧
      doc.geometry = geometry.map fun g => if settings.clampCoordinates then g.clamped else g := by
  obtain ⟨root', doc, hroot', hdecode, -, -, hrecords⟩ := document_of_compile h
  cases hroot.symm.trans hroot'
  obtain ⟨geometry', hsource, hgeometry⟩ := hrecords.geometry doc.simulation
  obtain ⟨n, f, hfield⟩ := field_of_resolves hfile
  have hat : root.at? ([] ++ ["scene"]) = some n := (Node.field?_eq_some.mp hfield).1
  obtain ⟨j, hj⟩ := Node.suppliedAt?_of_at? hroot hat
  have hsupplied : Json.supplied? d.members "scene" = some j := hj
  rw [SceneGeometry, hsupplied] at hsource
  obtain ⟨file', hfile', hingest'⟩ := hsource
  cases hfile.symm.trans hfile'
  cases hingest.symm.trans hingest'
  exact ⟨doc, hdecode, hgeometry⟩

end Layout

open Layout

/-- A crowd simulation whose scene has a tuple of the wrong length is not compiled, provided that
what is before the tuple can be written: without clamping whatever the length is, and with clamping if
the tuple is too short. One that is too long is clamped to a tuple of the right length, which is
written, and the rest of its members is lost. -/
theorem compile_refuses_arity {settings : Settings} {ingest : Ingestor} {d : Description}
    {root : Node} {v : Value} {file : String} {before behind : List Geometry} {g : Geometry}
    (hroot : Node.ofDescription .standard d.members = .ok root)
    (htype : Resolves ⟨settings, d.directory?, ingest⟩ root [] .root "type" v)
    (hfile : Resolves ⟨settings, d.directory?, ingest⟩ root ["scene"] .scene "file" (.text file))
    (hingest : ingest (Context.scenePath ⟨settings, d.directory?, ingest⟩ file) =
      .ok (before ++ g :: behind))
    (hbefore : ∀ b ∈ before,
      ∃ bs, (if settings.clampCoordinates then b.clamped else b).toBytes? = .ok bs)
    (harity : g.members.length ≠ g.tag.arity) :
    (settings.clampCoordinates = false ∨ g.members.length < g.tag.arity →
      compile settings .standard ingest d = .error (.encode "scene.geometry"
        (.arityMismatch g.tag g.tag.arity g.members.length))) ∧
    (settings.clampCoordinates = true → g.tag.arity < g.members.length →
      g.clamped = Geometry.clamped ⟨g.tag, g.members.take g.tag.arity⟩ ∧
      (∃ bs, g.clamped.toBytes? = .ok bs) ∧
      ∀ c, compile settings .standard ingest d = .ok c →
        ∃ doc, Document.decode c.bytes = .ok doc ∧
          doc.geometry[before.length]? = some g.clamped) := by
  constructor
  · intro hcase
    have hrefused : (if settings.clampCoordinates then g.clamped else g).toBytes? =
        .error (.arityMismatch g.tag g.tag.arity g.members.length) := by
      by_cases hclamp : settings.clampCoordinates = true
      · have hshort : g.members.length < g.tag.arity := by
          rcases hcase with hplain | hshort
          · rw [hclamp] at hplain
            cases hplain
          · exact hshort
        rw [if_pos hclamp]
        exact Geometry.toBytes?_clamped_of_lt hshort
      · rw [if_neg hclamp]
        exact Geometry.toBytes?_of_ne harity
    obtain ⟨n, f, hfield⟩ := field_of_resolves hfile
    obtain ⟨-, steps', hsteps⟩ := steps_of_scene hroot (Node.field?_eq_some.mp hfield).1
    refine (compile_eq_error_iff hroot).mpr ⟨_, _, _, hsteps, fun s hs => ?_,
      alone_fileField hroot hfile hingest hbefore hrefused⟩
    cases List.mem_singleton.mp hs
    exact alone_typeField hroot htype
  · intro hclamp hlong
    refine ⟨(Geometry.clamped_take hlong.le).symm, Geometry.toBytes?_clamped hlong.le,
      fun c hc => ?_⟩
    obtain ⟨doc, hdecode, hgeometry⟩ := geometry_of_compile hc hroot hfile hingest
    refine ⟨doc, hdecode, ?_⟩
    rw [hgeometry, List.map_append, List.getElem?_append_right (by simp)]
    simp [hclamp]

namespace Overlong

open Hall

def height : Geometry := ⟨.height, [3]⟩

def width : Geometry := ⟨.width, [5, 7]⟩

def ingest : Ingestor := fun _ => .ok [height, width]

def clamping : Settings := Settings.standard.withClamping true

def compiled : Compiled where
  bytes := [1, 1, 0, 18, 0, 3, 1, 0, 17, 0, 5, 1, 0, 255, 0, 4, 104, 97, 108, 108,
    1, 0, 19, 0, 0, 0, 0, 0, 0, 0, 0]
  recordCount := 4

theorem compile_description : compile clamping .standard ingest description = .ok compiled := by
  cbv

theorem resolves_type (clamp : Bool) :
    Resolves ⟨Settings.standard.withClamping clamp, none, ingest⟩ tree [] .root "type"
      (.choice "flow" 1) := by
  cases clamp <;> cbv

theorem resolves_file (clamp : Bool) :
    Resolves ⟨Settings.standard.withClamping clamp, none, ingest⟩ tree ["scene"] .scene "file"
      (.text "hall") := by
  cases clamp <;> cbv

theorem written_before (clamp : Bool) : ∀ b ∈ [height],
    ∃ bs, (if clamp then b.clamped else b).toBytes? = .ok bs := by
  intro b hb
  cases List.mem_singleton.mp hb
  cases clamp <;> exact ⟨[1, 0, 18, 0, 3], by cbv⟩

end Overlong

open Hall Overlong in
theorem compile_refuses_arity_overlong :
    compile (Settings.standard.withClamping false) .standard ingest description =
        .error (.encode "scene.geometry" (.arityMismatch .width 1 2)) ∧
      compile clamping .standard ingest description = .ok compiled ∧
      ∃ doc, Document.decode compiled.bytes = .ok doc ∧
        doc.geometry[1]? = some (Geometry.clamped ⟨.width, [5]⟩) := by
  have hlength : width.members.length ≠ width.tag.arity := by decide
  have hplain := compile_refuses_arity (d := description) build_members (resolves_type false)
    (resolves_file false) rfl (written_before false) hlength
  have hclamped := compile_refuses_arity (d := description) build_members (resolves_type true)
    (resolves_file true) rfl (written_before true) hlength
  obtain ⟨hsame, -, hdocument⟩ := hclamped.2 rfl (by decide)
  obtain ⟨doc, hdecode, hgeometry⟩ := hdocument compiled compile_description
  exact ⟨hplain.1 (.inl rfl), compile_description, doc, hdecode,
    hgeometry.trans (congrArg some hsame)⟩

open Hall Overlong in
/-- With clamping the second member of the width is lost and nothing is refused. -/
theorem compile_drops_member :
    Node.ofDescription .standard description.members = .ok tree ∧
      Resolves ⟨clamping, none, ingest⟩ tree [] .root "type" (.choice "flow" 1) ∧
      Resolves ⟨clamping, none, ingest⟩ tree ["scene"] .scene "file" (.text "hall") ∧
      ingest (Context.scenePath ⟨clamping, none, ingest⟩ "hall") = .ok ([height] ++ width :: []) ∧
      (∀ b ∈ [height], ∃ bs,
        (if clamping.clampCoordinates then b.clamped else b).toBytes? = .ok bs) ∧
      width.members.length ≠ width.tag.arity ∧
      (∃ doc, Document.decode compiled.bytes = .ok doc ∧ doc.geometry = [height, ⟨.width, [5]⟩]) ∧
      compile clamping .standard ingest description = .ok compiled ∧
      compile clamping .standard ingest description ≠
        .error (.encode "scene.geometry" (.arityMismatch .width 1 2)) := by
  refine ⟨build_members, resolves_type true, resolves_file true, rfl, written_before true, by decide,
    ⟨⟨.flow, [.geometry height, .geometry ⟨.width, [5]⟩, .sceneFile "hall", .sceneScale .zero]⟩,
      by cbv, by cbv⟩, compile_description, ?_⟩
  rw [compile_description]
  intro hrefused
  cases hrefused

end CrowdScenario

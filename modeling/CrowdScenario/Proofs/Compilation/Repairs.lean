import CrowdScenario.Proofs.Compilation.Clamping
import CrowdScenario.Proofs.Compilation.Kinds

/-!
# Compilation with and without clamping

Where every piece of geometry has the length that its tag asks for, clamping only ever repairs members
that do not fit: a compilation without it ends as the one with it, or stops at such a member
(`compile_clamped`). Both take the same steps from the same memory, so that nothing else can differ.
-/

namespace CrowdScenario

theorem MemberWidth.clamp_eq_self {width : MemberWidth} {v : Int64} (h : width.holds v = true) :
    width.clamp v = v := by
  rw [holds_iff] at h
  rw [clamp, if_neg (by omega), if_neg (by omega)]

namespace Geometry

/-- Geometry with every member at the nearest number that fits, which is the same geometry if all of
them fit. -/
structure Nearest (g g' : Geometry) : Prop where
  tag : g'.tag = g.tag
  arity : g'.members.length = g.members.length
  member : ∀ (i : Nat) (v : Int64) (width : MemberWidth), g.members[i]? = some v →
    g.tag.layout[i]? = some width →
      ∃ v', g'.members[i]? = some v' ∧ v'.toInt = max 0 (min v.toInt width.max)
  fits : (∀ (i : Nat) (v : Int64) (width : MemberWidth), g.members[i]? = some v →
    g.tag.layout[i]? = some width → width.holds v = true) → g' = g

theorem zipWith_clamp_eq_self {ws : List MemberWidth} {vs : List Int64}
    (hlen : vs.length = ws.length)
    (h : ∀ (i : Nat) (v : Int64) (width : MemberWidth), vs[i]? = some v → ws[i]? = some width →
      width.holds v = true) : List.zipWith MemberWidth.clamp ws vs = vs := by
  induction ws generalizing vs with
  | nil =>
    rw [List.length_eq_zero_iff.mp hlen]
    rfl
  | cons width ws ih =>
    cases vs with
    | nil => cases hlen
    | cons v vs =>
      have hrest : List.zipWith MemberWidth.clamp ws vs = vs :=
        ih (Nat.succ.inj hlen) fun i v width hv hwidth => h (i + 1) v width hv hwidth
      rw [List.zipWith_cons_cons, hrest, MemberWidth.clamp_eq_self (h 0 v width rfl rfl)]

theorem nearest_clamped {g : Geometry} (h : g.members.length = g.tag.arity) :
    g.Nearest g.clamped where
  tag := rfl
  arity := by
    rw [clamped, List.length_zipWith, h, GeometryTag.arity, Nat.min_self]
  member i v width hv hwidth := by
    refine ⟨width.clamp v, ?_, width.toInt_clamp v⟩
    rw [clamped, List.getElem?_zipWith, hv, hwidth]
  fits hfits := by
    have hmembers := zipWith_clamp_eq_self h hfits
    rw [clamped, hmembers]

theorem toBytes?_of_arity {g : Geometry} (h : g.members.length = g.tag.arity) :
    (∃ bs, g.toBytes? = .ok bs ∧ g.clamped = g) ∨
      ∃ i v width, g.toBytes? = .error (.outOfRange g.tag i v width) := by
  rw [toBytes?, if_pos h]
  cases hmisfit : firstMisfit? 0 g.tag.layout g.members with
  | some misfit => exact .inr ⟨_, _, _, rfl⟩
  | none =>
    refine .inl ⟨_, rfl, (nearest_clamped h).fits fun i v width hv hwidth => ?_⟩
    rw [MemberWidth.holds_iff]
    exact firstMisfit?_eq_none.mp hmisfit i v width hv hwidth

theorem toBytes?_clamped {g : Geometry} (h : g.tag.arity ≤ g.members.length) :
    ∃ bs, g.clamped.toBytes? = .ok bs := by
  have hlen : g.clamped.members.length = g.clamped.tag.arity := by
    rw [clamped, List.length_zipWith]
    exact Nat.min_eq_left h
  have hfits : firstMisfit? 0 g.clamped.tag.layout g.clamped.members = none :=
    firstMisfit?_clamped 0 g.tag.layout g.members
  rw [toBytes?, if_pos hlen, hfits]
  exact ⟨_, rfl⟩

end Geometry

/-- An ingestor whose geometry always has the length that its tag asks for. -/
def Ingestor.Shaped (ingest : Ingestor) : Prop :=
  ∀ path geometry, ingest path = .ok geometry → ∀ g ∈ geometry, g.members.length = g.tag.arity

def Settings.withClamping (s : Settings) (clamp : Bool) : Settings :=
  { s with clampCoordinates := clamp }

def Context.withClamping (ctx : Context) (clamp : Bool) : Context :=
  { ctx with settings := ctx.settings.withClamping clamp }

def Overflows {α : Type} (result : Except CompileError α) : Prop :=
  ∃ path tag index value width, result = .error (.encode path (.outOfRange tag index value width))

namespace Resolution

section
variable (ctx : Context) (root : Node) (clamp : Bool)

theorem resolveAmong_withClamping (free : List FieldId) (id : FieldId) :
    resolveAmong (ctx.withClamping clamp) root free id = resolveAmong ctx root free id := by
  -- The induction is on the fields that may still be started, as in resolution itself.
  induction hn : free.length using Nat.strongRecOn generalizing free id with
  | _ size ih =>
    rw [resolveAmong, resolveAmong]
    by_cases hfree : id ∈ free
    · have hlt := length_others_lt hfree
      rw [hn] at hlt
      have hread : resolveAmong (ctx.withClamping clamp) root (others free id) =
          resolveAmong ctx root (others free id) :=
        funext fun x => ih _ hlt (others free id) x rfl
      simp only [hread]
      rfl
    · simp only [dif_neg hfree]

theorem resolveField_withClamping :
    resolveField (ctx.withClamping clamp) root = resolveField ctx root :=
  funext fun id => resolveAmong_withClamping ctx root clamp _ id

theorem resolve_withClamping (here : Address) (schema : Schema) (name : String) :
    resolve (ctx.withClamping clamp) root here schema name = resolve ctx root here schema name := by
  unfold resolve
  rw [resolveField_withClamping]

theorem distribution_withClamping (here : Address) (schema : Schema) :
    distribution (ctx.withClamping clamp) root here schema = distribution ctx root here schema := by
  simp only [distribution, distributionKind, distributionNumber, resolve_withClamping]

end
end Resolution

section
variable {ctx : Context} {root : Node} {m : Memo}

theorem Memo.Staged.withClamping (h : m.Staged ctx root) (clamp : Bool) :
    m.Staged (ctx.withClamping clamp) root := ⟨h.ingested, h.latest⟩

theorem ingest_of_context {v : Value} {geometry : List Geometry}
    (h : ctx.geometry? v = some geometry) : ∃ path, ctx.ingest path = .ok geometry := by
  cases v with
  | text file => exact ⟨ctx.scenePath file, Encoding.ingest_of_geometry? h⟩
  | _ => cases h

def Memo.ShowsScene (ctx : Context) (root : Node) (m : Memo) (here : Address) : Prop :=
  ∃ p, m.latestScene? root here = some p ∧ ctx.geometry? p.2 = some (m.geometry here)

theorem Memo.Staged.geometry (h : m.Staged ctx root) (here : Address) :
    m.geometry here = [] ∨ m.ShowsScene ctx root here := by
  have hside := h.latest here
  rw [Memo.ShowsScene, Memo.geometry]
  cases hlatest : m.latestScene? root here with
  | none =>
    rw [hlatest] at hside
    rw [hside]
    exact .inl rfl
  | some p =>
    rw [hlatest, Option.bind_some] at hside
    rw [hside]
    cases hgeometry : ctx.geometry? p.2 with
    | none => exact .inl rfl
    | some records => exact .inr ⟨p, rfl, hgeometry⟩

theorem Memo.Staged.geometry_of_scene (h : m.Staged ctx root) {id : FieldId} {v : Value}
    (hvalue : m.value? id = some v) (hscene : root.isScene id = true) :
    m.ShowsScene ctx root id.owner := by
  obtain ⟨latest, hlatest⟩ := Memo.exists_latestScene? hvalue rfl hscene
  obtain ⟨-, hisScene⟩ := Memo.scene_of_latestScene? hlatest
  obtain ⟨records, hrecords⟩ := h.ingested latest (List.mem_of_find?_eq_some hlatest) hisScene
  have hside := h.latest id.owner
  rw [hlatest, Option.bind_some, hrecords] at hside
  refine ⟨latest, hlatest, ?_⟩
  rw [Memo.geometry, hside]
  exact hrecords

theorem Memo.Staged.arity (h : m.Staged ctx root) (hshaped : ctx.ingest.Shaped) (here : Address) :
    ∀ g ∈ m.geometry here, g.members.length = g.tag.arity := by
  rcases h.geometry here with hnone | ⟨p, -, hgeometry⟩
  · rw [hnone]
    exact nofun
  · obtain ⟨path, hingest⟩ := ingest_of_context hgeometry
    exact hshaped path _ hingest

end

/-! ### Steps in both contexts -/

open Resolution

namespace Encoding

theorem sceneEntries_cons (settings : Settings) (c : Coordinate) (id : FieldId) (file : String)
    (g : Geometry) (geometry : List Geometry) :
    sceneEntries settings c id file (g :: geometry) =
      (joinPath id.owner.path geometrySide,
        .geometry (if settings.clampCoordinates then g.clamped else g)) ::
          sceneEntries settings c id file geometry := rfl

/-- The records of a scene are the same as clamped ones up to a member that does not fit. -/
theorem putAll_sceneEntries (settings : Settings) (c : Coordinate) (id : FieldId) (file : String)
    {geometry : List Geometry} (h : ∀ g ∈ geometry, g.members.length = g.tag.arity) (w : Writer) :
    Plain.putAll (sceneEntries (settings.withClamping false) c id file geometry) w =
        Plain.putAll (sceneEntries (settings.withClamping true) c id file geometry) w ∨
      Overflows (Plain.putAll (sceneEntries (settings.withClamping false) c id file geometry) w) := by
  induction geometry generalizing w with
  | nil => exact .inl rfl
  | cons g geometry ih =>
    have hrest := ih fun g' hg' => h g' (List.mem_cons_of_mem _ hg')
    rw [sceneEntries_cons, sceneEntries_cons, Plain.putAll, Plain.putAll]
    rcases Geometry.toBytes?_of_arity (h g List.mem_cons_self) with ⟨bs, hbs, hsame⟩ |
      ⟨i, v, width, hrefused⟩
    · have hput : ∀ path, Plain.put path (.geometry g) w = .ok (join w ⟨bs, 1⟩) := by
        intro path
        rw [Plain.put, Writer.put_eq, Entry.toBytes?, hbs]
        rfl
      simp only [Settings.withClamping, Bool.false_eq_true, if_false, if_true, hsame, hput]
      exact hrest _
    · refine .inr ⟨joinPath id.owner.path geometrySide, g.tag, i, v, width, ?_⟩
      simp only [Settings.withClamping, Bool.false_eq_true, if_false]
      rw [Plain.put, Writer.put_eq, Entry.toBytes?, hrefused]
      rfl

section
variable {ctx : Context} {root : Node} {m m' : Memo} {owner : Section} {id : FieldId} {v : Value}

theorem writeValue_withClamping (hshaped : ctx.ingest.Shaped) (hm : m.Staged ctx root)
    (schema : Schema) (f : Field) (w : Writer) :
    perform ((writeValue (ctx.withClamping false) schema f id v).run w) m =
        perform ((writeValue (ctx.withClamping true) schema f id v).run w) m ∨
      Overflows (perform ((writeValue (ctx.withClamping false) schema f id v).run w) m).1 := by
  by_cases hleading : f.emission = .leadingByte
  · refine .inl ?_
    rw [writeValue, writeValue, if_pos hleading, if_pos hleading]
  · cases howner : schema.owner with
    | none =>
      refine .inl ?_
      simp only [writeValue, if_neg hleading, howner]
    | some owner =>
      rw [perform_writeValue_of_owner hleading howner, perform_writeValue_of_owner hleading howner]
      cases hemission : f.emission with
      | sceneFile element =>
        cases v with
        | text file =>
          have hlist := putAll_sceneEntries ctx.settings ⟨owner, element⟩ id file
            (hm.arity hshaped id.owner) w
          rcases hlist with hsame | ⟨path, tag, i, v, width, hrefused⟩
          · exact .inl (congrArg (fun result => (Except.map (((), ·)) result, m)) hsame)
          · refine .inr ⟨path, tag, i, v, width, ?_⟩
            exact congrArg (Except.map (((), ·))) hrefused
        | _ => exact .inl rfl
      | _ => exact .inl rfl

/-- From the same memory a step without clamping ends as with it, or stops at a member. -/
theorem run_withClamping (hshaped : ctx.ingest.Shaped) (hm : m.Staged ctx root) (s : Step)
    (w : Writer) :
    perform ((s.run (ctx.withClamping false) root).run w) m =
        perform ((s.run (ctx.withClamping true) root).run w) m ∨
      Overflows (perform ((s.run (ctx.withClamping false) root).run w) m).1 := by
  cases s with
  | distribution here schema slot =>
    refine .inl ?_
    simp only [Step.run, run_encodeDistribution, distribution_withClamping]
  | field here schema f =>
    simp only [Step.run, run_encodeField, resolve_withClamping]
    have hafter := stages_resolve here schema f.name m hm
    cases hresult : perform (resolve ctx root here schema f.name) m with
    | mk result m1 =>
      rw [hresult] at hafter
      cases result with
      | error e =>
        rw [perform_bind_error hresult, perform_bind_error hresult]
        exact .inl rfl
      | ok v =>
        rw [perform_bind_ok hresult, perform_bind_ok hresult]
        exact writeValue_withClamping hshaped hafter schema f w

theorem runAll_withClamping (ctx : Context) (root : Node) (hshaped : ctx.ingest.Shaped)
    {m : Memo} (hm : m.Staged ctx root) (ss : List Step) (w : Writer) :
    perform ((runAll (ctx.withClamping false) root ss).run w) m =
        perform ((runAll (ctx.withClamping true) root ss).run w) m ∨
      Overflows (perform ((runAll (ctx.withClamping false) root ss).run w) m).1 := by
  induction ss generalizing w m with
  | nil => exact .inl rfl
  | cons s ss ih =>
    rw [runAll, runAll, StateT.run_bind, StateT.run_bind]
    cases hresult : perform ((s.run (ctx.withClamping false) root).run w) m with
    | mk result m1 =>
      rcases run_withClamping hshaped hm s w with hsame | hoverflows
      · rw [hresult] at hsame
        cases result with
        | error e =>
          rw [perform_bind_error hresult, perform_bind_error hsame.symm]
          exact .inl rfl
        | ok p =>
          have hafter := (comes_step hresult).2 (hm.withClamping false)
          rw [perform_bind_ok hresult, perform_bind_ok hsame.symm]
          exact ih ⟨hafter.ingested, hafter.latest⟩ p.2
      · rw [hresult] at hoverflows
        obtain ⟨path, tag, i, v, width, hrefused⟩ := hoverflows
        refine .inr ⟨path, tag, i, v, width, ?_⟩
        cases hrefused
        rw [perform_bind_error hresult]

theorem cause_of_text {c : Coordinate} {file : String} {cause : WireError}
    (h : (Entry.text c file).toBytes? = .error cause) : ∃ length, cause = .textTooLong length := by
  rw [Entry.toBytes?, textBytes?] at h
  split at h
  · cases h
  · cases h
    exact ⟨_, rfl⟩

theorem cause_of_writeFailure {settings : Settings} (hclamp : settings.clampCoordinates = true)
    (hlen : ∀ g ∈ m.geometry id.owner, g.members.length = g.tag.arity) {emission : Emission}
    {path : String} {cause : WireError}
    (h : WriteFailure settings id v m emission (.encode path cause)) :
    ∃ length, cause = .textTooLong length := by
  cases h with
  | scene hnamed hmem hrefused =>
    rcases List.mem_append.mp hmem with hmem | hmem
    · obtain ⟨g, hg, hentry⟩ := List.mem_map.mp hmem
      cases hentry
      simp only [hclamp, if_true, Entry.toBytes?] at hrefused
      obtain ⟨bs, hbs⟩ := Geometry.toBytes?_clamped (hlen g hg).ge
      rw [hbs] at hrefused
      cases hrefused
    · cases List.mem_singleton.mp hmem
      exact cause_of_text hrefused

theorem cause_of_step {registry : Registry} (hbuilt : root.Built registry)
    (hshaped : ctx.ingest.Shaped) (hclamp : ctx.settings.clampCoordinates = true)
    (hkinded : m.Kinded root) (hm : m.Staged ctx root) {s : Step} (hs : s ∈ steps [] root)
    {w : Writer} {path : String} {cause : WireError}
    (h : perform ((s.run ctx root).run w) m = (.error (.encode path cause), m')) :
    ∃ length, cause = .textTooLong length := by
  have hcovers : ∀ schema, Covers root schema fun e => ∀ path cause, e ≠ .encode path cause := by
    refine fun schema => ⟨?_, fun _ _ _ _ => nofun⟩
    rintro e he path cause rfl
    exact he
  cases s with
  | distribution here schema slot =>
    have hother := (respects_distribution ctx hbuilt here (hcovers schema)).of_error hkinded
      (fails_encodeDistribution h)
    exact absurd rfl (hother path cause)
  | field here schema f =>
    obtain ⟨-, hf, hskip⟩ := of_mem_steps_root hbuilt hs
    rcases fails_encodeField h with hfails | ⟨v, m1, hresolve, hwrite⟩
    · have hother := (respects_resolve ctx hbuilt here f.name (hcovers schema)).of_error hkinded
        hfails
      exact absurd rfl (hother path cause)
    · have hafter := stages_resolve here schema f.name m hm
      rw [hresolve] at hafter
      exact cause_of_writeFailure hclamp (hafter.arity hshaped here)
        (failure_of_writeValue hf hskip hwrite)

/-- What a step writes with clamping where it writes a scene: the geometry that was ingested, with
every member at the nearest number that fits, then the location. -/
structure WritesNearest (ctx : Context) (root : Node) (here : Address) (schema : Schema) (f : Field)
    (element : Element) (before after : Memo) (owner : Section) (file : String)
    (written : List Geometry) (records : List Bytes) : Prop where
  owned : schema.owner = some owner
  resolved : perform (resolve ctx root here schema f.name) before = (.ok (.text file), after)
  ingested : after.geometry here = [] ∨ after.ShowsScene ctx root here
  scene : f.kind = .sceneFile → after.ShowsScene ctx root here
  nearest : List.Forall₂ Geometry.Nearest (after.geometry here) written
  recorded : List.Forall₂ (fun (e : Entry) bs => e.toBytes? = .ok bs)
    (written.map .geometry ++ [.text ⟨owner, element⟩ file]) records

theorem writesNearest_of_comes (hshaped : ctx.ingest.Shaped)
    (hclamp : ctx.settings.clampCoordinates = true) (hm : m.Staged ctx root) {here : Address}
    {schema : Schema} {f : Field} {element : Element} (hof : (Step.field here schema f).Of root)
    (hemission : f.emission = .sceneFile element) {w w' : Writer}
    (h : Comes ((Step.field here schema f).run ctx root) w m w' m') :
    ∃ owner file written records,
      WritesNearest ctx root here schema f element m m' owner file written records ∧
        w'.bytes = w.bytes ++ records.flatten := by
  obtain ⟨v, hresolve, hwrite⟩ := comes_encodeField h
  have hafter := stages_resolve here schema f.name m hm
  rw [hresolve] at hafter
  obtain ⟨-, ⟨hleading, -⟩ | ⟨-, owner, list, howner, hentries, hput⟩⟩ := comes_writeValue hwrite
  · rw [hemission] at hleading
    cases hleading
  rw [hemission] at hentries
  obtain ⟨file, hfile, hlist⟩ := require_bind_eq_ok hentries
  have hv : v = .text file := by
    cases v <;> cases hfile
    rfl
  cases hlist
  obtain ⟨records, hrecords, rfl⟩ := putAll_eq_ok hput
  rw [map_snd_sceneEntries] at hrecords
  refine ⟨owner, file, (m'.geometry here).map Geometry.clamped, records, ⟨howner, ?_,
    hafter.geometry here, fun hkind => ?_, ?_, ?_⟩, rfl⟩
  · rw [hresolve, hv]
  · obtain ⟨⟨n, hn, rfl⟩, hf, -⟩ := hof
    have hfield : root.field? ⟨here, f.name⟩ = some (n, f) :=
      Node.field?_eq_some.mpr ⟨hn, n.schema.field?_of_mem hf⟩
    rw [resolve_of_mem ctx here hf (by rw [hkind]; rfl)] at hresolve
    exact hafter.geometry_of_scene (value?_of_resolveField hresolve).1
      (Node.isScene_eq_true.mpr ⟨n, f, hfield, hkind⟩)
  · rw [List.forall₂_map_right_iff, List.forall₂_same]
    exact fun g hg => Geometry.nearest_clamped (hafter.arity hshaped here g hg)
  · have hsame : sceneRecords ctx.settings ⟨owner, element⟩ file (m'.geometry here) =
        ((m'.geometry here).map Geometry.clamped).map .geometry ++ [.text ⟨owner, element⟩ file] := by
      simp [sceneRecords, hclamp]
    rw [← hsame]
    exact hrecords

end

end Encoding

/-! ### Compilation in both contexts -/

open Encoding

theorem comes_of_compile {settings : Settings} {registry : Registry} {ingest : Ingestor}
    {d : Description} {c : Compiled} (h : compile settings registry ingest d = .ok c) :
    ∃ root, Node.ofDescription registry d.members = .ok root ∧
      ∀ before s behind, steps [] root = before ++ s :: behind →
        ∃ w m w' m' rest,
          Comes (runAll ⟨settings, d.directory?, ingest⟩ root before) .empty .empty w m ∧
          Comes (s.run ⟨settings, d.directory?, ingest⟩ root) w m w' m' ∧
          c.bytes = w'.bytes ++ rest := by
  obtain ⟨root, hroot, hencode⟩ := compile_eq_ok h
  refine ⟨root, hroot, fun before s behind hsteps => ?_⟩
  have hrun : ∃ w m, Comes (encodeNode ⟨settings, d.directory?, ingest⟩ root [] root) .empty .empty
      w m ∧ c = .ofWriter w := by
    rw [Compilation.encode, perform_bind] at hencode
    cases hresult : perform
        ((encodeNode ⟨settings, d.directory?, ingest⟩ root [] root).run .empty) .empty with
    | mk result m =>
      rw [hresult] at hencode
      cases result with
      | error e => cases hencode
      | ok p =>
        cases hencode
        exact ⟨p.2, m, hresult, rfl⟩
  obtain ⟨last, m2, hcomes, rfl⟩ := hrun
  rw [encodeNode_eq_runAll, hsteps, runAll_append] at hcomes
  obtain ⟨w, m, hbefore, hafter⟩ := comes_bind.mp hcomes
  obtain ⟨w', m', hstep, hbehind⟩ := comes_bind.mp hafter
  obtain ⟨⟨rest, hrest⟩, -⟩ := comes_runAll hbehind
  exact ⟨w, m, w', m', rest, hbefore, hstep, hrest⟩

theorem compile_withClamping (settings : Settings) (registry : Registry) {ingest : Ingestor}
    (hshaped : ingest.Shaped) (d : Description) :
    compile (settings.withClamping false) registry ingest d =
        compile (settings.withClamping true) registry ingest d ∨
      Overflows (compile (settings.withClamping false) registry ingest d) := by
  unfold compile Compilation.run
  cases hroot : Node.ofDescription registry d.members with
  | error e => exact .inl rfl
  | ok root =>
    have hsteps := runAll_withClamping ⟨settings, d.directory?, ingest⟩ root hshaped .empty
      (steps [] root) .empty
    rw [← encodeNode_eq_runAll, ← encodeNode_eq_runAll] at hsteps
    rcases hsteps with hsame | ⟨path, tag, i, v, width, hrefused⟩
    · refine .inl (congrArg Prod.fst ?_)
      have hrun : perform ((encodeNode ⟨settings.withClamping false, d.directory?, ingest⟩ root []
          root).run .empty) .empty = perform ((encodeNode ⟨settings.withClamping true, d.directory?,
            ingest⟩ root [] root).run .empty) .empty := hsame
      show perform (_ >>= _) .empty = perform (_ >>= _) .empty
      rw [perform_bind, perform_bind, hrun]
    · exact .inr ⟨path, tag, i, v, width,
        congrArg Prod.fst (perform_bind_error (Prod.ext hrefused rfl))⟩

/-- Where all geometry has the length of its tag, clamping only repairs members that do not fit: a
compilation without it ends as the one with it, or stops at such a member. With it no geometry is
refused, and every scene is written with each member at the nearest number that fits, which is the
member itself if it fits. -/
theorem compile_clamped {ingest : Ingestor} (hshaped : ingest.Shaped) (settings : Settings)
    (registry : Registry) (d : Description) :
    (compile (settings.withClamping false) registry ingest d =
        compile (settings.withClamping true) registry ingest d ∨
      ∃ path tag index value width, compile (settings.withClamping false) registry ingest d =
        .error (.encode path (.outOfRange tag index value width))) ∧
    (∀ path cause, compile (settings.withClamping true) registry ingest d =
        .error (.encode path cause) → ∃ length, cause = .textTooLong length) ∧
    ∀ c, compile (settings.withClamping true) registry ingest d = .ok c →
      ∃ root, Node.ofDescription registry d.members = .ok root ∧
        ∀ before here schema f behind element,
          steps [] root = before ++ .field here schema f :: behind →
            f.emission = .sceneFile element →
              ∃ w m m' owner file written records rest,
                Comes (runAll ⟨settings.withClamping true, d.directory?, ingest⟩ root before)
                  .empty .empty w m ∧
                WritesNearest ⟨settings.withClamping true, d.directory?, ingest⟩ root here schema f
                  element m m' owner file written records ∧
                c.bytes = w.bytes ++ records.flatten ++ rest := by
  refine ⟨compile_withClamping settings registry hshaped d, ?_, ?_⟩
  · intro path cause h
    rcases compile_eq_error h with hroot | ⟨root, before, s, behind, w, m, m', hroot, hsteps,
      hbefore, hs⟩
    · cases Node.failure_of_ofDescription hroot
    · have hbuilt := Node.built_ofDescription hroot
      have hmem : s ∈ steps [] root := by
        rw [hsteps]
        exact List.mem_append_cons_self
      exact cause_of_step hbuilt hshaped rfl (kinded_of_runAll hbuilt hbefore)
        ((comes_runAll hbefore).2 .empty) hmem hs
  · intro c h
    obtain ⟨root, hroot, hcomes⟩ := comes_of_compile h
    refine ⟨root, hroot, fun before here schema f behind element hsteps hemission => ?_⟩
    obtain ⟨w, m, w', m', rest, hbefore, hstep, hbytes⟩ := hcomes before _ behind hsteps
    have hof : (Step.field here schema f).Of root := by
      refine of_mem_steps_root (Node.built_ofDescription hroot) ?_
      rw [hsteps]
      exact List.mem_append_cons_self
    obtain ⟨owner, file, written, records, hwrites, hrecords⟩ :=
      writesNearest_of_comes hshaped rfl ((comes_runAll hbefore).2 .empty) hof hemission hstep
    refine ⟨w, m, m', owner, file, written, records, rest, hbefore, hwrites, ?_⟩
    rw [hbytes, hrecords]

namespace Hall

def members : Json.Members := [("scene", .object [("file", .string "hall")])]

def description : Description := ⟨members, none⟩

def tree : Node :=
  ⟨.root, none, members, [("scene", ⟨.scene, none, [("file", .string "hall")], []⟩)]⟩

theorem build_members : Node.ofDescription .standard members = .ok tree := by
  cbv

end Hall

namespace Wide

/-- A wall that ends too far to the right. -/
def ingest : Ingestor := fun _ => .ok [.wall 0 0 70000 5]

def compiled : Compiled where
  bytes := [1, 1, 0, 1, 0, 0, 0, 0, 255, 255, 0, 5, 1, 0, 255, 0, 4, 104, 97, 108, 108,
    1, 0, 19, 0, 0, 0, 0, 0, 0, 0, 0]
  recordCount := 3

theorem shaped : ingest.Shaped := by
  intro path geometry h
  cases h
  decide

end Wide

open Hall Wide Layout in
theorem compile_clamped_wall :
    ingest.Shaped ∧
      compile (Settings.standard.withClamping false) .standard ingest description =
        .error (.encode "scene.geometry" (.outOfRange .wall 2 70000 .two)) ∧
      compile (Settings.standard.withClamping true) .standard ingest description = .ok compiled ∧
      ∃ m m' owner file written records,
        WritesNearest ⟨Settings.standard.withClamping true, none, ingest⟩ tree ["scene"] .scene
          fileField Coordinate.sceneFile.element m m' owner file written records ∧
        records.flatten <:+: compiled.bytes := by
  obtain ⟨-, -, hdocument⟩ := compile_clamped shaped .standard .standard description
  have hclamped : compile (Settings.standard.withClamping true) .standard ingest description =
      .ok compiled := by cbv
  have hstops : compile (Settings.standard.withClamping false) .standard ingest description =
      .error (.encode "scene.geometry" (.outOfRange .wall 2 70000 .two)) := by cbv
  obtain ⟨root, hroot, hscenes⟩ := hdocument compiled hclamped
  cases hroot.symm.trans build_members
  obtain ⟨w, m, m', owner, file, written, records, rest, -, hwrites, hbytes⟩ :=
    hscenes [.field [] .root typeField] ["scene"] .scene fileField
      [.field ["scene"] .scene scaleField] Coordinate.sceneFile.element rfl rfl
  exact ⟨shaped, hstops, hclamped, m, m', owner, file, written, records, hwrites, w.bytes, rest,
    hbytes.symm⟩

end CrowdScenario

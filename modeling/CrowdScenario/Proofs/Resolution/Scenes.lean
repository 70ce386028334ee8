import CrowdScenario.Proofs.Resolution.Agreement
import CrowdScenario.Proofs.Resolution.Invariants

/-!
# Geometry in memory

All scenes of a section leave their geometry in one place, so that what memory has there is the
geometry of the latest of them (`Memo.Staged`). Every step of resolution keeps it so, whatever it ends
in, and however many scenes a section has.
-/

namespace CrowdScenario

def Node.isScene (root : Node) (id : FieldId) : Bool :=
  (root.field? id).any fun p => decide (p.2.kind = .sceneFile)

theorem Node.isScene_eq_true {root : Node} {id : FieldId} :
    root.isScene id = true ↔ ∃ n f, root.field? id = some (n, f) ∧ f.kind = .sceneFile := by
  rw [isScene]
  cases root.field? id with
  | none => simp
  | some p =>
    constructor
    · intro h
      exact ⟨p.1, p.2, rfl, by simpa using h⟩
    · intro h
      obtain ⟨n, f, heq, hkind⟩ := h
      cases heq
      simpa using hkind

def Context.geometry? (ctx : Context) (v : Value) : Option (List Geometry) :=
  v.text?.bind fun file => (ctx.ingest (ctx.scenePath file)).toOption

theorem Plain.geometry_of_finish {ctx : Context} {id : FieldId} {input? : Option Input}
    {e : Evaluated} (h : finish ctx id .sceneFile input? = .ok e) :
    ∃ geometry, ctx.geometry? e.value = some geometry ∧
      e.sides.lookup geometrySide = some (.geometry geometry) := by
  simp only [finish] at h
  cases hfile : sceneFileOf id.path input? with
  | error c =>
    rw [hfile] at h
    cases h
  | ok file =>
    rw [hfile, Inquiry.ok_bind, ingestScene] at h
    cases hgeometry : ctx.ingest (ctx.scenePath file) with
    | error c => simp [hgeometry] at h
    | ok geometry =>
      simp only [hgeometry, Except.ok.injEq] at h
      have hvalue : ctx.geometry? (.text file) = some geometry := by
        simp [Context.geometry?, Value.text?, hgeometry, Except.toOption]
      rw [← h]
      exact ⟨geometry, hvalue, rfl⟩

namespace Memo

def latestScene? (root : Node) (m : Memo) (here : Address) : Option (FieldId × Value) :=
  m.values.find? fun p => decide (p.1.owner = here) && root.isScene p.1

/-- Every scene with a value has geometry, and each section has that of its latest one. -/
structure Staged (ctx : Context) (root : Node) (m : Memo) : Prop where
  ingested : ∀ p ∈ m.values, root.isScene p.1 = true →
    ∃ geometry, ctx.geometry? p.2 = some geometry
  latest : ∀ here, m.side? here geometrySide =
    ((m.latestScene? root here).bind fun p => ctx.geometry? p.2).map .geometry

variable {ctx : Context} {root n : Node} {m m' : Memo} {id : FieldId} {f : Field}

theorem latestScene?_remember (m : Memo) (id : FieldId) (v : Value) (here : Address) :
    (m.remember id v).latestScene? root here =
      if id.owner = here ∧ root.isScene id = true then some (id, v)
      else m.latestScene? root here := by
  rw [latestScene?, remember, List.find?_cons]
  by_cases hscene : id.owner = here ∧ root.isScene id = true
  · simp [hscene]
  · rw [if_neg hscene]
    have hfalse : (decide (id.owner = here) && root.isScene id) = false := by
      simpa using hscene
    rw [hfalse]
    rfl

theorem value?_of_latestScene? {here : Address} {p : FieldId × Value}
    (h : m.latestScene? root here = some p) : m.value? p.1 = some p.2 := by
  obtain ⟨hp, before, behind, hvalues, hbefore⟩ := List.find?_eq_some_iff_append.mp h
  refine List.lookup_eq_some_iff.mpr ⟨before, behind, hvalues, fun q hq => ?_⟩
  -- Whether a value is that of a scene of the section depends on its field alone.
  have hfalse := hbefore q hq
  rw [bne_iff_ne]
  intro heq
  rw [← heq, hp] at hfalse
  cases hfalse

theorem exists_latestScene? {here : Address} {v : Value} (hvalue : m.value? id = some v)
    (howner : id.owner = here) (hscene : root.isScene id = true) :
    ∃ p, m.latestScene? root here = some p := by
  rw [← Option.isSome_iff_exists, latestScene?, List.find?_isSome]
  exact ⟨(id, v), mem_of_lookup hvalue, by simp [howner, hscene]⟩

theorem scene_of_latestScene? {here : Address} {p : FieldId × Value}
    (h : m.latestScene? root here = some p) : p.1.owner = here ∧ root.isScene p.1 = true := by
  have hp := List.find?_some h
  simpa using hp

namespace Staged

theorem empty : Staged ctx root .empty := ⟨nofun, fun _ => rfl⟩

theorem of_eq (h : m.Staged ctx root) (hvalues : m'.values = m.values) (hsides : m'.sides = m.sides) :
    m'.Staged ctx root := by
  refine ⟨?_, fun here => ?_⟩
  · rw [hvalues]
    exact h.ingested
  · have hlatest := h.latest here
    rw [side?, latestScene?] at hlatest ⊢
    rw [hvalues, hsides]
    exact hlatest

/-- A scene that gets its value gives its section its geometry; other fields change nothing. -/
theorem remember (h : m.Staged ctx root) (hfield : root.field? id = some (n, f))
    {input? : Option Input} {e : Evaluated} (hfinish : Plain.finish ctx id f.kind input? = .ok e) :
    (((Resolution.keepSides m id.owner e.sides).stop id).remember id e.value).Staged ctx root := by
  have hside : ∀ here, (((Resolution.keepSides m id.owner e.sides).stop id).remember id
      e.value).side? here geometrySide =
        if id.owner = here then (e.sides.lookup geometrySide).or (m.side? here geometrySide)
        else m.side? here geometrySide :=
    fun here => Resolution.side?_keepSides m id.owner here e.sides geometrySide
  have hlatest : ∀ here, (((Resolution.keepSides m id.owner e.sides).stop id).remember id
      e.value).latestScene? root here =
        if id.owner = here ∧ root.isScene id = true then some (id, e.value)
        else m.latestScene? root here := fun here => latestScene?_remember _ id e.value here
  by_cases hkind : f.kind = .sceneFile
  · have hscene : root.isScene id = true := Node.isScene_eq_true.mpr ⟨n, f, hfield, hkind⟩
    rw [hkind] at hfinish
    obtain ⟨geometry, hvalue, hlookup⟩ := Plain.geometry_of_finish hfinish
    refine ⟨fun p hp hscene' => ?_, fun here => ?_⟩
    · rcases List.mem_cons.mp hp with rfl | hp
      · exact ⟨geometry, hvalue⟩
      · exact h.ingested p hp hscene'
    · rw [hside, hlatest, hlookup]
      by_cases hhere : id.owner = here
      · simp [hhere, hscene, hvalue]
      · simp only [hhere, false_and, if_false]
        exact h.latest here
  · have hscene : root.isScene id = false := by
      simp [Node.isScene, hfield, hkind]
    have hsides : e.sides = [] := by
      by_contra hne
      exact hkind (Plain.kind_of_finish hfinish hne)
    refine ⟨fun p hp hscene' => ?_, fun here => ?_⟩
    · rcases List.mem_cons.mp hp with rfl | hp
      · rw [hscene] at hscene'
        cases hscene'
      · exact h.ingested p hp hscene'
    · rw [hside, hlatest, hsides, hscene]
      simpa using h.latest here

end Staged
end Memo

namespace Resolution

/-- A step that leaves the geometry of the latest scenes in memory, whatever it ends in. -/
def Stages {α : Type} (ctx : Context) (root : Node) (step : Resolution α) : Prop :=
  ∀ m : Memo, m.Staged ctx root → (perform step m).2.Staged ctx root

theorem invariant_staged (ctx : Context) (root : Node) :
    Invariant ctx root (fun _ m => m.Staged ctx root) (fun _ m => m.Staged ctx root) where
  weak h := h
  start _ h _ _ := h.of_eq rfl rfl
  stop h := h.of_eq rfl rfl
  value {busy m m' id n f input? v} hfield h hrun := by
    obtain ⟨ingested, hcomplete⟩ := perform_complete_eq_finish ctx id f.kind input? m
    rw [hrun] at hcomplete
    have hnoted : Memo.Staged ctx root { m with ingested := ingested } := h.of_eq rfl rfl
    cases hfinish : Plain.finish ctx id f.kind input? with
    | error e =>
      rw [hfinish] at hcomplete
      cases hcomplete
    | ok e =>
      rw [hfinish] at hcomplete
      cases hcomplete
      exact hnoted.remember hfield hfinish
  failure {busy m m' id n f input? e} hfield h hrun := by
    obtain ⟨ingested, hcomplete⟩ := perform_complete_eq_finish ctx id f.kind input? m
    rw [hrun] at hcomplete
    cases hfinish : Plain.finish ctx id f.kind input? with
    | error e' =>
      rw [hfinish] at hcomplete
      cases hcomplete
      exact h.of_eq rfl rfl
    | ok e' =>
      rw [hfinish] at hcomplete
      cases hcomplete

section
variable {ctx : Context} {root : Node}

theorem stages_resolve (here : Address) (schema : Schema) (name : String) :
    Stages ctx root (resolve ctx root here schema name) :=
  fun _ => ((invariant_staged ctx root).resolve [] here schema name).after

theorem stages_distribution (here : Address) (schema : Schema) :
    Stages ctx root (distribution ctx root here schema) :=
  fun _ => ((invariant_staged ctx root).distribution [] here schema).after

end

section
variable {ctx : Context} {root : Node} {id : FieldId} {m m' : Memo} {v : Value}

theorem value?_of_resolveField (h : perform (resolveField ctx root id) m = (.ok v, m')) :
    m'.value? id = some v ∧ (m.value? id = none → ∃ rest, m'.values = (id, v) :: rest) := by
  rw [resolveField, resolveAmong, perform_bind_ok (perform_get m)] at h
  cases hvalue : m.value? id with
  | some v' =>
    rw [hvalue] at h
    cases h
    refine ⟨hvalue, fun hnone => ?_⟩
    cases hnone
  | none =>
    rw [hvalue] at h
    simp only at h
    split at h
    · cases h
    · split at h
      · split at h
        · cases h
        · obtain ⟨m1, -, rfl⟩ := perform_whileUnderway_eq_ok h
          have hnewest : ((m1.stop id).remember id v).values = (id, v) :: m1.values := rfl
          refine ⟨?_, fun _ => ⟨m1.values, hnewest⟩⟩
          rw [Memo.value?, hnewest, List.lookup_cons_self]
      · cases h

end

end Resolution

end CrowdScenario

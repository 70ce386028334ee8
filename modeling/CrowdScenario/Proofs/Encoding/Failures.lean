import CrowdScenario.Proofs.Compilation.Scenes
import CrowdScenario.Proofs.Resolution.Kinds

/-!
# Failures of an encoding

An encoding fails at one of its steps, and a step fails in the resolution of what it writes or in the
writing. Writing fails on a value that cannot be written in the way the field says, on seconds that
are no number of seconds, and on the records of a scene (`WriteFailure`).
-/

namespace CrowdScenario

def Emission.accepts (v : Value) : Emission → Bool
  | .skip => true
  | .leadingByte => v.code?.isSome
  | .flag _ => v.bool?.isSome
  | .float _ => v.float?.isSome
  | .seconds _ => v.float?.isSome
  | .sceneFile _ => v.text?.isSome

def Emission.suits : Emission → FieldKind → Bool
  | .skip, _ => true
  | .leadingByte, .choice _ => true
  | .flag _, .bool => true
  | .float _, .int => true
  | .float _, .float => true
  | .seconds _, .int => true
  | .seconds _, .float => true
  | .sceneFile _, .text => true
  | .sceneFile _, .sceneFile => true
  | _, _ => false

theorem Emission.accepts_of_suits {emission : Emission} {kind : FieldKind} {v : Value}
    (hsuits : emission.suits kind = true) (hv : kind.holds v = true) :
    emission.accepts v = true := by
  cases kind with
  | int =>
    cases v with
    | int n => cases emission <;> first | rfl | cases hsuits
    | _ => cases hv
  | float =>
    cases v with
    | float x => cases emission <;> first | rfl | cases hsuits
    | _ => cases hv
  | bool =>
    cases v with
    | bool b => cases emission <;> first | rfl | cases hsuits
    | _ => cases hv
  | choice variants =>
    cases v with
    | choice name code => cases emission <;> first | rfl | cases hsuits
    | _ => cases hv
  | nested schema => cases emission <;> first | rfl | cases hsuits
  | distribution slot => cases emission <;> first | rfl | cases hsuits
  | _ =>
    cases v with
    | text s => cases emission <;> first | rfl | cases hsuits
    | _ => cases hv

theorem Emission.plain_of_suits {emission : Emission} {kind : FieldKind}
    (hsuits : emission.suits kind = true) (hskip : emission ≠ .skip) : kind.isNested = false := by
  cases kind with
  | nested schema =>
    cases emission with
    | skip => exact absurd rfl hskip
    | _ => cases hsuits
  | distribution slot =>
    cases emission with
    | skip => exact absurd rfl hskip
    | _ => cases hsuits
  | _ => rfl

theorem Schema.exists_owner {schema : Schema} {f : Field} (hf : f ∈ schema.fields)
    (hskip : f.emission ≠ .skip) (hleading : f.emission ≠ .leadingByte) :
    ∃ owner, schema.owner = some owner := by
  cases howner : schema.owner with
  | some owner => exact ⟨owner, rfl⟩
  | none =>
    have hneeds := schema.owner_of_emission howner f hf
    cases hemission : f.emission with
    | skip => exact absurd hemission hskip
    | leadingByte => exact absurd hemission hleading
    | _ =>
      rw [hemission] at hneeds
      cases hneeds

def Memo.geometry (m : Memo) (here : Address) : List Geometry :=
  match m.side? here geometrySide with
  | some (.geometry records) => records
  | _ => []

namespace Encoding

/-! ### Writing -/

inductive WriteFailure (settings : Settings) (id : FieldId) (v : Value) (m : Memo) :
    Emission → CompileError → Prop
  | form {emission : Emission} {expected : String} (refused : emission.accepts v = false) :
      WriteFailure settings id v m emission (wrongKind id.path expected v)
  | seconds {element : Element} {value : String} :
      WriteFailure settings id v m (.seconds element)
        (.valueOutOfRange id.path value secondsDetail)
  | scene {c : Coordinate} {file path : String} {entry : Entry} {cause : WireError}
      (named : v = .text file)
      (mem : (path, entry) ∈ sceneEntries settings c id file (m.geometry id.owner))
      (refused : entry.toBytes? = .error cause) :
      WriteFailure settings id v m (.sceneFile c.element) (.encode path cause)

theorem path_of_mem_sceneEntries {settings : Settings} {c : Coordinate} {id : FieldId}
    {file path : String} {geometry : List Geometry} {entry : Entry}
    (h : (path, entry) ∈ sceneEntries settings c id file geometry) :
    path = joinPath id.owner.path geometrySide ∨ path = id.path := by
  rcases List.mem_append.mp h with h | h
  · obtain ⟨g, -, hg⟩ := List.mem_map.mp h
    cases hg
    exact .inl rfl
  · cases List.mem_singleton.mp h
    exact .inr rfl

section
variable {ctx : Context} {owner : Section} {id : FieldId} {v : Value} {m m' : Memo}

theorem require_bind_eq_error {α β : Type} {path expected : String} {part : Value → Option α}
    {next : α → Resolution β} {e : CompileError}
    (h : Resolution.perform (require path expected part v >>= next) m = (.error e, m')) :
    ((part v).isSome = false ∧ e = wrongKind path expected v) ∨
      ∃ a, part v = some a ∧ Resolution.perform (next a) m = (.error e, m') := by
  rw [require] at h
  cases hpart : part v with
  | some a =>
    rw [hpart] at h
    exact .inr ⟨a, rfl, h⟩
  | none =>
    rw [hpart] at h
    cases h
    exact .inl ⟨rfl, rfl⟩

theorem require_bind_eq_ok {α β : Type} {path expected : String} {part : Value → Option α}
    {next : α → Resolution β} {b : β}
    (h : Resolution.perform (require path expected part v >>= next) m = (.ok b, m')) :
    ∃ a, part v = some a ∧ Resolution.perform (next a) m = (.ok b, m') := by
  rw [require] at h
  cases hpart : part v with
  | some a =>
    rw [hpart] at h
    exact ⟨a, rfl, h⟩
  | none =>
    rw [hpart] at h
    cases h

theorem putAll_eq_error {list : List (String × Entry)} {w : Writer} {e : CompileError}
    (h : Plain.putAll list w = .error e) :
    ∃ path entry cause, (path, entry) ∈ list ∧ entry.toBytes? = .error cause ∧
      e = .encode path cause := by
  induction list generalizing w with
  | nil => cases h
  | cons p rest ih =>
    rw [Plain.putAll, Plain.put, Writer.put_eq] at h
    cases hbytes : p.2.toBytes? with
    | error cause =>
      rw [hbytes] at h
      cases h
      exact ⟨p.1, p.2, cause, List.mem_cons_self, hbytes, rfl⟩
    | ok bs =>
      rw [hbytes] at h
      obtain ⟨path, entry, cause, hmem, hcause, rfl⟩ := ih h
      exact ⟨path, entry, cause, List.mem_cons_of_mem _ hmem, hcause, rfl⟩

theorem failure_of_entries {emission : Emission} {e : CompileError}
    (h : Resolution.perform (entries ctx owner id v emission) m = (.error e, m')) :
    WriteFailure ctx.settings id v m emission e := by
  cases emission with
  | skip => cases h
  | leadingByte => cases h
  | flag element =>
    obtain ⟨hform, rfl⟩ | ⟨b, -, hnext⟩ := require_bind_eq_error h
    · exact .form hform
    · cases hnext
  | float element =>
    obtain ⟨hform, rfl⟩ | ⟨x, -, hnext⟩ := require_bind_eq_error h
    · exact .form hform
    · cases hnext
  | seconds element =>
    obtain ⟨hform, rfl⟩ | ⟨x, -, hnext⟩ := require_bind_eq_error h
    · exact .form hform
    · split at hnext
      · cases hnext
      · cases hnext
        exact .seconds
  | sceneFile element =>
    obtain ⟨hform, rfl⟩ | ⟨file, -, hnext⟩ := require_bind_eq_error h
    · exact .form hform
    · cases hnext

/-- Only the records of a scene can be refused. -/
theorem failure_of_refused {emission : Emission} {list : List (String × Entry)} {path : String}
    {entry : Entry} {cause : WireError}
    (h : Resolution.perform (entries ctx owner id v emission) m = (.ok list, m'))
    (hmem : (path, entry) ∈ list) (hrefused : entry.toBytes? = .error cause) :
    WriteFailure ctx.settings id v m emission (.encode path cause) := by
  cases emission with
  | skip =>
    cases h
    cases hmem
  | leadingByte =>
    cases h
    cases hmem
  | flag element =>
    obtain ⟨b, -, hnext⟩ := require_bind_eq_ok h
    cases hnext
    cases List.mem_singleton.mp hmem
    cases hrefused
  | float element =>
    obtain ⟨x, -, hnext⟩ := require_bind_eq_ok h
    cases hnext
    cases List.mem_singleton.mp hmem
    cases hrefused
  | seconds element =>
    obtain ⟨x, -, hnext⟩ := require_bind_eq_ok h
    split at hnext
    · cases hnext
      cases List.mem_singleton.mp hmem
      cases hrefused
    · cases hnext
  | sceneFile element =>
    obtain ⟨file, hfile, hnext⟩ := require_bind_eq_ok h
    cases hnext
    cases v with
    | text s =>
      cases hfile
      exact .scene (c := ⟨owner, element⟩) rfl hmem hrefused
    | _ => cases hfile

theorem perform_writeValue_of_owner {schema : Schema} {f : Field}
    (hleading : f.emission ≠ .leadingByte) (howner : schema.owner = some owner) (w : Writer) :
    Resolution.perform ((writeValue ctx schema f id v).run w) m =
      match (Resolution.perform (entries ctx owner id v f.emission) m).1 with
      | .ok list => ((Plain.putAll list w).map (((), ·)), m)
      | .error e => (.error e, m) := by
  have hmemory : (Resolution.perform (entries ctx owner id v f.emission) m).2 = m :=
    perform_entries_memory owner id v f.emission m
  simp only [writeValue, if_neg hleading, howner, StateT.run_bind, StateT.run_monadLift,
    monadLift_self, bind_assoc, pure_bind]
  rw [Resolution.perform_bind]
  cases hresult : Resolution.perform (entries ctx owner id v f.emission) m with
  | mk result m1 =>
    rw [hresult] at hmemory
    cases hmemory
    cases result with
    | error e => rfl
    | ok list => exact perform_putAll list w _

theorem failure_of_writeValue {schema : Schema} {f : Field} {w : Writer} {e : CompileError}
    (hf : f ∈ schema.fields) (hskip : f.emission ≠ .skip)
    (h : Resolution.perform ((writeValue ctx schema f id v).run w) m = (.error e, m')) :
    WriteFailure ctx.settings id v m f.emission e := by
  by_cases hleading : f.emission = .leadingByte
  · rw [writeValue, if_pos hleading, StateT.run_bind, StateT.run_monadLift, bind_assoc] at h
    obtain ⟨hform, rfl⟩ | ⟨code, -, hnext⟩ := require_bind_eq_error h
    · rw [hleading]
      exact .form hform
    · cases hnext
  · obtain ⟨owner, howner⟩ := Schema.exists_owner hf hskip hleading
    rw [perform_writeValue_of_owner hleading howner] at h
    cases hentries : (Resolution.perform (entries ctx owner id v f.emission) m).1 with
    | error c =>
      rw [hentries] at h
      cases h
      exact failure_of_entries (Prod.ext hentries rfl)
    | ok list =>
      rw [hentries] at h
      simp only at h
      cases hput : Plain.putAll list w with
      | ok w' =>
        rw [hput] at h
        cases h
      | error c =>
        rw [hput] at h
        cases h
        obtain ⟨path, entry, cause, hmem, hrefused, rfl⟩ := putAll_eq_error hput
        exact failure_of_refused (Prod.ext hentries rfl) hmem hrefused

end

section
variable {ctx : Context} {root : Node} {w : Writer} {m m' : Memo} {e : CompileError}

theorem run_encodeField (ctx : Context) (root : Node) (here : Address) (schema : Schema) (f : Field)
    (w : Writer) :
    (encodeField ctx root here schema f).run w =
      Resolution.resolve ctx root here schema f.name >>= fun v =>
        (writeValue ctx schema f ⟨here, f.name⟩ v).run w := by
  simp only [encodeField, StateT.run_bind, StateT.run_monadLift, monadLift_self, bind_assoc,
    pure_bind]

theorem run_encodeDistribution (ctx : Context) (root : Node) (here : Address) (schema : Schema)
    (slot : Slot) (w : Writer) :
    (encodeDistribution ctx root here schema slot).run w =
      Resolution.distribution ctx root here schema >>= fun d =>
        (put here.path (.distribution slot.coordinate d)).run w := by
  simp only [encodeDistribution, StateT.run_bind, StateT.run_monadLift, monadLift_self, bind_assoc,
    pure_bind]

theorem fails_encodeField {here : Address} {schema : Schema} {f : Field}
    (h : Resolution.perform ((encodeField ctx root here schema f).run w) m = (.error e, m')) :
    Resolution.perform (Resolution.resolve ctx root here schema f.name) m = (.error e, m') ∨
      ∃ v m1, Resolution.perform (Resolution.resolve ctx root here schema f.name) m = (.ok v, m1) ∧
        Resolution.perform ((writeValue ctx schema f ⟨here, f.name⟩ v).run w) m1 =
          (.error e, m') := by
  rw [run_encodeField] at h
  exact Resolution.perform_bind_eq_error.mp h

theorem fails_encodeDistribution {here : Address} {schema : Schema} {slot : Slot}
    (h : Resolution.perform ((encodeDistribution ctx root here schema slot).run w) m =
      (.error e, m')) :
    Resolution.perform (Resolution.distribution ctx root here schema) m = (.error e, m') := by
  rw [run_encodeDistribution] at h
  rcases Resolution.perform_bind_eq_error.mp h with hfails | ⟨d, m1, -, hput⟩
  · exact hfails
  · rw [perform_put, Plain.put, Writer.put_eq] at hput
    cases hput

/-- Steps fail at the first one that fails. -/
theorem fails_runAll {ss : List Step}
    (h : Resolution.perform ((runAll ctx root ss).run w) m = (.error e, m')) :
    ∃ before s behind w1 m1, ss = before ++ s :: behind ∧
      Comes (runAll ctx root before) w m w1 m1 ∧
      Resolution.perform ((s.run ctx root).run w1) m1 = (.error e, m') := by
  induction ss generalizing w m with
  | nil => cases h
  | cons s ss ih =>
    rw [runAll, StateT.run_bind] at h
    rcases Resolution.perform_bind_eq_error.mp h with hfails | ⟨p, m1, hstep, hrest⟩
    · exact ⟨[], s, ss, w, m, rfl, rfl, hfails⟩
    · obtain ⟨before, s', behind, w2, m2, rfl, hbefore, hs'⟩ := ih hrest
      refine ⟨s :: before, s', behind, w2, m2, rfl, ?_, hs'⟩
      exact comes_bind.mpr ⟨p.2, m1, hstep, hbefore⟩

end

end Encoding
end CrowdScenario

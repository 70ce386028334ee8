import CrowdScenario.Proofs.Resolution.Questions
import CrowdScenario.Proofs.Tree.Building
import CrowdScenario.Proofs.Wire.Calls

/-!
# Records of an encoding

Which records the parts of an encoding add to the document that a writer holds.
-/

namespace CrowdScenario
namespace Plain

section
variable {ctx : Context} {root n : Node} {id : FieldId} {f : Field} {e : Evaluated}

theorem finish_of_field {busy : List FieldId} (hfield : root.field? id = some (n, f))
    (h : field ctx root busy id = .ok e) :
    ∃ input?, finish ctx id f.kind input? = .ok e := by
  rw [field] at h
  split at h
  · cases h
  · split at h
    · rw [hfield] at h
      obtain ⟨input?, -, hfinish⟩ := Inquiry.bind_eq_ok.mp h
      exact ⟨input?, hfinish⟩
    · cases h

theorem finish_float {input? : Option Input} (h : finish ctx id .float input? = .ok e) :
    ∃ x, e.value = .float x := by
  cases input? with
  | none =>
    cases h
    exact ⟨.zero, rfl⟩
  | some i =>
    simp only [finish, coerce, readInput] at h
    cases hx : i.float? with
    | none => simp [hx, Except.map] at h
    | some x =>
      simp only [hx, Except.map, Except.ok.injEq] at h
      exact ⟨x, h ▸ rfl⟩

theorem finish_bool {input? : Option Input} (h : finish ctx id .bool input? = .ok e) :
    ∃ b, e.value = .bool b := by
  cases input? with
  | none =>
    cases h
    exact ⟨false, rfl⟩
  | some i =>
    simp only [finish, coerce, readInput] at h
    cases hb : i.bool? with
    | none => simp [hb, Except.map] at h
    | some b =>
      simp only [hb, Except.map, Except.ok.injEq] at h
      exact ⟨b, h ▸ rfl⟩

theorem finish_choice {variants : List Variant} {input? : Option Input}
    (h : finish ctx id (.choice variants) input? = .ok e) :
    ∃ v ∈ variants, e.value = .choice v.name v.code := by
  cases input? with
  | none => cases h
  | some i =>
    simp only [finish, coerce, chooseVariant] at h
    cases hname : i.name? with
    | none => simp [hname, Except.map] at h
    | some name =>
      simp only [hname] at h
      cases hv : variants.find? fun v => v.name = name with
      | none => simp [hv, Except.map] at h
      | some v =>
        simp only [hv, Except.map, Except.ok.injEq] at h
        exact ⟨v, List.mem_of_find?_eq_some hv, h ▸ rfl⟩

theorem finish_sceneFile {input? : Option Input} (h : finish ctx id .sceneFile input? = .ok e) :
    ∃ file geometry, e.value = .text file ∧ ctx.ingest (ctx.scenePath file) = .ok geometry ∧
      records e = geometry := by
  simp only [finish] at h
  cases hfile : sceneFileOf id.path input? with
  | error c =>
    rw [hfile] at h
    cases h
  | ok file =>
    rw [hfile, Inquiry.ok_bind, ingestScene] at h
    split at h
    · cases h
    · next geometry hgeometry =>
      cases h
      exact ⟨file, geometry, rfl, hgeometry, rfl⟩

end

variable {s : Simulation} {rs : List Record} {w w' : Writer}

theorem holds_put {path : String} {e : Entry} {r : Record} (hr : e.record? = some r)
    (hw : w.Holds s rs) (h : put path e w = .ok w') : w'.Holds s (rs ++ [r]) := by
  rw [put, Writer.put_eq] at h
  cases hbs : e.toBytes? with
  | error cause =>
    rw [hbs] at h
    cases h
  | ok bs =>
    rw [hbs] at h
    cases h
    exact hw.append ((Call.mk e r hr).written hbs)

theorem holds_putAll {list : List (String × Entry)} {new : List Record}
    (hrecords : List.Forall₂ (fun p r => p.2.record? = some r) list new) (hw : w.Holds s rs)
    (h : putAll list w = .ok w') : w'.Holds s (rs ++ new) := by
  induction hrecords generalizing rs w with
  | nil =>
    cases h
    simpa using hw
  | @cons p r list new hr _ ih =>
    rw [putAll] at h
    cases hput : put p.1 p.2 w with
    | error c =>
      rw [hput] at h
      cases h
    | ok w1 =>
      rw [hput] at h
      have hrest := ih (holds_put hr hw hput) h
      simpa using hrest

end Plain

/-- What a number of seconds says about the end: infinity stands for no end, all else for the nearest
whole number, which must be below the one that stands for no end. -/
def EndsAt (x : Binary64) (t : EndTime) : Prop :=
  (x = .infinity false ∧ t = .infinite) ∨
    ∃ n : UInt32, t = .finite n ∧ x.isFinite = true ∧ (n.toNat : Int) = x.roundHalfAway ∧
      n.toNat < EndTime.sentinel.toNat

theorem endsAt_of_endTime? {x : Binary64} {t : EndTime} (h : Encoding.endTime? x = some t) :
    EndsAt x t := by
  unfold Encoding.endTime? at h
  split at h
  · next hx =>
    cases h
    exact .inl ⟨hx, rfl⟩
  · split at h
    · next hx =>
      cases h
      obtain ⟨hfinite, hlow, hhigh⟩ := hx
      have hsentinel : EndTime.sentinel.toNat = 4294967295 := rfl
      have hnat : (UInt32.ofNat x.roundHalfAway.toNat).toNat = x.roundHalfAway.toNat := by
        rw [UInt32.toNat_ofNat_of_lt']
        show x.roundHalfAway.toNat < 4294967296
        omega
      refine .inr ⟨_, rfl, hfinite, ?_, ?_⟩ <;> omega
    · cases h

theorem EndsAt.ofSeconds_toSeconds {x : Binary64} {t : EndTime} (h : EndsAt x t) :
    EndTime.ofSeconds t.toSeconds = t := by
  rcases h with ⟨-, rfl⟩ | ⟨n, rfl, -, -, hlt⟩
  · rfl
  · have hne : n ≠ EndTime.sentinel := by
      intro heq
      rw [heq] at hlt
      exact Nat.lt_irrefl _ hlt
    rw [EndTime.toSeconds, EndTime.ofSeconds, if_neg hne]

/-! ### Fields -/

/-- The value that a field has on a fresh tree. -/
def Resolves (ctx : Context) (root : Node) (here : Address) (schema : Schema) (name : String)
    (v : Value) : Prop :=
  (Resolution.perform (Resolution.resolve ctx root here schema name) .empty).1 = .ok v

def Distributes (ctx : Context) (root : Node) (here : Address) (schema : Schema)
    (d : Distribution) : Prop :=
  (Resolution.perform (Resolution.distribution ctx root here schema) .empty).1 = .ok d

/-- A step adds records of a certain kind to the document that a writer holds. -/
def Adds (step : Writer → Except CompileError Writer) (kind : List Record → Prop) : Prop :=
  ∀ w w' s rs, w.Holds s rs → step w = .ok w' → ∃ new, w'.Holds s (rs ++ new) ∧ kind new

def Both (first second : List Record → Prop) (rs : List Record) : Prop :=
  ∃ before behind, first before ∧ second behind ∧ rs = before ++ behind

@[simp] theorem both_nothing (kind : List Record → Prop) : Both kind (· = []) = kind := by
  funext rs
  simp [Both]

@[simp] theorem nothing_both (kind : List Record → Prop) : Both (· = []) kind = kind := by
  funext rs
  simp [Both]

theorem Adds.nothing : Adds .ok (· = []) := by
  intro w w' s rs hw h
  cases h
  exact ⟨[], by simpa using hw, rfl⟩

theorem Adds.andThen {step next : Writer → Except CompileError Writer}
    {first second : List Record → Prop} (hstep : Adds step first) (hnext : Adds next second) :
    Adds (fun w => step w >>= next) (Both first second) := by
  intro w w' s rs hw h
  cases hresult : step w with
  | error c =>
    simp only [hresult] at h
    cases h
  | ok w1 =>
    simp only [hresult] at h
    obtain ⟨before, hw1, hbefore⟩ := hstep w w1 s rs hw hresult
    obtain ⟨behind, hw2, hbehind⟩ := hnext w1 w' s _ hw1 h
    refine ⟨before ++ behind, ?_, before, behind, hbefore, hbehind, rfl⟩
    rwa [← List.append_assoc]

theorem Adds.imp {step : Writer → Except CompileError Writer} {kind kind' : List Record → Prop}
    (h : Adds step kind) (hkind : ∀ new, kind new → kind' new) : Adds step kind' := by
  intro w w' s rs hw hstep
  obtain ⟨new, hw', hnew⟩ := h w w' s rs hw hstep
  exact ⟨new, hw', hkind new hnew⟩

section
variable {ctx : Context} {root n : Node} {here : Address} {f : Field} {owner : Section}
  {element : Element}

theorem encodeField_eq_ok (hscene : root.SingleScene) (hn : root.at? here = some n)
    (hf : f ∈ n.schema.fields) (hplain : f.kind.isNested = false) {w w' : Writer}
    (h : Plain.encodeField ctx here n.schema f w (Plain.field ctx root []) = .ok w') :
    ∃ e input?, Resolves ctx root here n.schema f.name e.value ∧
      Plain.finish ctx ⟨here, f.name⟩ f.kind input? = .ok e ∧
      Plain.writeValue ctx n.schema f ⟨here, f.name⟩ e w = .ok w' := by
  have hdeclared := n.schema.field?_of_mem hf
  obtain ⟨e, he, hwrite⟩ := Inquiry.bind_eq_ok.mp h
  have hagrees : Agrees ctx root [] (Resolution.resolve ctx root here n.schema f.name)
      (Plain.resolve here n.schema f.name >>= fun e => pure e.value) :=
    Agrees.resolve hscene here n.schema f.name
  have hfield : Plain.field ctx root [] ⟨here, f.name⟩ = .ok e := by
    simpa [Plain.resolve, hdeclared, hplain, Plain.ask] using he
  obtain ⟨input?, hfinish⟩ :=
    Plain.finish_of_field (Node.field?_eq_some.mpr ⟨hn, hdeclared⟩) hfield
  refine ⟨e, input?, ?_, hfinish, hwrite⟩
  rw [Resolves, hagrees.fresh]
  exact Inquiry.bind_eq_ok.mpr ⟨e, he, rfl⟩

/-- A written field adds the records of its entries, whatever value it has. -/
theorem adds_encodeField {kind : List Record → Prop} (hscene : root.SingleScene)
    (hn : root.at? here = some n) (hf : f ∈ n.schema.fields) (hplain : f.kind.isNested = false)
    (howner : n.schema.owner = some owner) (hsection : f.emission.needsSection = true)
    (hwrites : ∀ e input? list, Resolves ctx root here n.schema f.name e.value →
      Plain.finish ctx ⟨here, f.name⟩ f.kind input? = .ok e →
        Plain.entries ctx owner ⟨here, f.name⟩ e f.emission = .ok list →
          ∃ new, List.Forall₂ (fun p r => p.2.record? = some r) list new ∧ kind new) :
    Adds (fun w => Plain.encodeField ctx here n.schema f w (Plain.field ctx root [])) kind := by
  intro w w' s rs hw h
  obtain ⟨e, input?, hresolves, hfinish, hwrite⟩ := encodeField_eq_ok hscene hn hf hplain h
  have hleading : f.emission ≠ .leadingByte := by
    intro heq
    rw [heq] at hsection
    cases hsection
  simp only [Plain.writeValue, if_neg hleading, howner] at hwrite
  cases hentries : Plain.entries ctx owner ⟨here, f.name⟩ e f.emission with
  | error cause =>
    rw [hentries] at hwrite
    cases hwrite
  | ok list =>
    rw [hentries] at hwrite
    obtain ⟨new, hrecords, hnew⟩ := hwrites e input? list hresolves hfinish hentries
    exact ⟨new, Plain.holds_putAll hrecords hw hwrite, hnew⟩

theorem adds_float (ctx : Context) {make : Binary64 → Record} (hscene : root.SingleScene)
    (hn : root.at? here = some n) (hf : f ∈ n.schema.fields) (hkind : f.kind = .float)
    (howner : n.schema.owner = some owner) (hemission : f.emission = .float element)
    (hmake : ∀ x, (Entry.float ⟨owner, element⟩ x).record? = some (make x)) :
    Adds (fun w => Plain.encodeField ctx here n.schema f w (Plain.field ctx root [])) fun new =>
      ∃ x, Resolves ctx root here n.schema f.name (.float x) ∧ new = [make x] := by
  refine adds_encodeField hscene hn hf (by rw [hkind]; rfl) howner (by rw [hemission]; rfl) ?_
  intro e input? list hresolves hfinish hentries
  rw [hkind] at hfinish
  obtain ⟨x, hx⟩ := Plain.finish_float hfinish
  rw [hx] at hresolves
  rw [hemission, Plain.entries, hx] at hentries
  cases hentries
  exact ⟨[make x], .cons (hmake x) .nil, x, hresolves, rfl⟩

theorem adds_flag (ctx : Context) {make : Bool → Record} (hscene : root.SingleScene)
    (hn : root.at? here = some n) (hf : f ∈ n.schema.fields) (hkind : f.kind = .bool)
    (howner : n.schema.owner = some owner) (hemission : f.emission = .flag element)
    (hmake : ∀ b, (Entry.flag ⟨owner, element⟩ b).record? = some (make b)) :
    Adds (fun w => Plain.encodeField ctx here n.schema f w (Plain.field ctx root [])) fun new =>
      ∃ b, Resolves ctx root here n.schema f.name (.bool b) ∧ new = [make b] := by
  refine adds_encodeField hscene hn hf (by rw [hkind]; rfl) howner (by rw [hemission]; rfl) ?_
  intro e input? list hresolves hfinish hentries
  rw [hkind] at hfinish
  obtain ⟨b, hb⟩ := Plain.finish_bool hfinish
  rw [hb] at hresolves
  rw [hemission, Plain.entries, hb] at hentries
  cases hentries
  exact ⟨[make b], .cons (hmake b) .nil, b, hresolves, rfl⟩

theorem adds_seconds (ctx : Context) (hscene : root.SingleScene) (hn : root.at? here = some n)
    (hf : f ∈ n.schema.fields) (hkind : f.kind = .float) (howner : n.schema.owner = some .time)
    (hemission : f.emission = .seconds Coordinate.endTime.element) :
    Adds (fun w => Plain.encodeField ctx here n.schema f w (Plain.field ctx root [])) fun new =>
      ∃ x t, Resolves ctx root here n.schema f.name (.float x) ∧ EndsAt x t ∧
        new = [.endTime t] := by
  refine adds_encodeField hscene hn hf (by rw [hkind]; rfl) howner (by rw [hemission]; rfl) ?_
  intro e input? list hresolves hfinish hentries
  rw [hkind] at hfinish
  obtain ⟨x, hx⟩ := Plain.finish_float hfinish
  rw [hx] at hresolves
  rw [hemission, Plain.entries, hx] at hentries
  simp only [Plain.require, Value.float?, Inquiry.ok_bind] at hentries
  split at hentries
  · next t ht =>
    cases hentries
    have hends := endsAt_of_endTime? ht
    have hrecord : (Entry.seconds .endTime t.toSeconds).record? = some (.endTime t) := by
      rw [Entry.record?, if_pos rfl, hends.ofSeconds_toSeconds]
    exact ⟨[.endTime t], .cons hrecord .nil, x, t, hresolves, hends, rfl⟩
  · cases hentries

theorem adds_sceneFile (ctx : Context) (hscene : root.SingleScene) (hn : root.at? here = some n)
    (hf : f ∈ n.schema.fields) (hkind : f.kind = .sceneFile)
    (howner : n.schema.owner = some .scene)
    (hemission : f.emission = .sceneFile Coordinate.sceneFile.element) :
    Adds (fun w => Plain.encodeField ctx here n.schema f w (Plain.field ctx root [])) fun new =>
      ∃ file geometry, Resolves ctx root here n.schema f.name (.text file) ∧
        ctx.ingest (ctx.scenePath file) = .ok geometry ∧
        new = geometry.map (fun g =>
          .geometry (if ctx.settings.clampCoordinates then g.clamped else g)) ++
            [.sceneFile file] := by
  refine adds_encodeField hscene hn hf (by rw [hkind]; rfl) howner (by rw [hemission]; rfl) ?_
  intro e input? list hresolves hfinish hentries
  rw [hkind] at hfinish
  obtain ⟨file, geometry, hfile, hingest, hrecords⟩ := Plain.finish_sceneFile hfinish
  rw [hfile] at hresolves
  rw [hemission, Plain.entries, hfile, hrecords] at hentries
  cases hentries
  refine ⟨_, List.rel_append ?_ (.cons rfl .nil), file, geometry, hresolves, hingest, rfl⟩
  rw [List.forall₂_map_left_iff, List.forall₂_map_right_iff]
  exact List.forall₂_same.mpr fun g _ => rfl

theorem adds_distribution (ctx : Context) (hscene : root.SingleScene) {schema : Schema} {slot : Slot}
    (hc : slot.coordinate.holdsDistribution = true) :
    Adds (fun w => Plain.encodeDistribution here schema slot w (Plain.field ctx root [])) fun new =>
      ∃ d, Distributes ctx root here schema d ∧ new = [.distribution slot.coordinate d] := by
  intro w w' s rs hw h
  obtain ⟨d, hd, hput⟩ := Inquiry.bind_eq_ok.mp h
  have hagrees : Agrees ctx root [] (Resolution.distribution ctx root here schema)
      (Plain.distribution here schema) := Agrees.distribution hscene here schema
  have hrecord : (Entry.distribution slot.coordinate d).record? =
      some (.distribution slot.coordinate d) := if_pos hc
  refine ⟨[.distribution slot.coordinate d], Plain.holds_put hrecord hw hput, d, ?_, rfl⟩
  rw [Distributes, hagrees.fresh, hd]

theorem adds_fields_nil {schema : Schema} :
    Adds (fun w => Plain.encodeFields ctx here schema [] w (Plain.field ctx root [])) (· = []) :=
  Adds.nothing

theorem adds_fields_silent {schema : Schema} {fields : List Field}
    (hsilent : ∀ f ∈ fields, f.emission = .skip) :
    Adds (fun w => Plain.encodeFields ctx here schema fields w (Plain.field ctx root []))
      (· = []) := by
  induction fields with
  | nil => exact adds_fields_nil
  | cons f rest ih =>
    have hrest := ih fun g hg => hsilent g (List.mem_cons_of_mem _ hg)
    simpa [Plain.encodeFields, hsilent f List.mem_cons_self] using hrest

theorem adds_fields_cons {schema : Schema} {rest : List Field} {first second : List Record → Prop}
    (hskip : f.emission ≠ .skip)
    (hfield : Adds (fun w => Plain.encodeField ctx here schema f w (Plain.field ctx root [])) first)
    (hrest : Adds (fun w => Plain.encodeFields ctx here schema rest w (Plain.field ctx root []))
      second) :
    Adds (fun w => Plain.encodeFields ctx here schema (f :: rest) w (Plain.field ctx root []))
      (Both first second) := by
  simpa [Plain.encodeFields, hskip, Inquiry.bind_apply] using hfield.andThen hrest

end

/-- Records that are there exactly if an author supplied something. -/
def IfSupplied (supplied? : Option Json) (kind : List Record → Prop) (rs : List Record) : Prop :=
  match supplied? with
  | none => rs = []
  | some _ => kind rs

@[simp] theorem ifSupplied_none (kind : List Record → Prop) : IfSupplied none kind = (· = []) := rfl

@[simp] theorem ifSupplied_some (j : Json) (kind : List Record → Prop) :
    IfSupplied (some j) kind = kind := rfl

def Parts (kinds : Field → List Record → Prop) (members : Json.Members) :
    List Field → List Record → Prop
  | [] => (· = [])
  | f :: fields =>
    Both (IfSupplied (if f.kind.isNested then Json.supplied? members f.name else none) (kinds f))
      (Parts kinds members fields)

theorem parts_cons_plain {kinds : Field → List Record → Prop} {members : Json.Members} {f : Field}
    {fields : List Field} (hplain : f.kind.isNested = false) :
    Parts kinds members (f :: fields) = Parts kinds members fields := by
  rw [Parts, hplain, if_neg Bool.false_ne_true, ifSupplied_none, nothing_both]

section
variable {ctx : Context} {root : Node} {here : Address} {registry : Registry}
  {members : Json.Members}

theorem adds_encodeChildren {fields : List Field} {children : List (String × Node)}
    {kinds : Field → List Record → Prop}
    (hchild : ∀ f ∈ fields, ∀ c, (f.name, c) ∈ children →
      Node.buildChild registry here members f = .ok (some c) →
        Adds (fun w => Plain.encodeNode ctx (here ++ [f.name]) c w (Plain.field ctx root []))
          (kinds f))
    (h : Node.buildChildren registry here members fields = .ok children) :
    Adds (fun w => Plain.encodeChildren ctx here children w (Plain.field ctx root []))
      (Parts kinds members fields) := by
  induction fields generalizing children with
  | nil =>
    rw [Node.buildChildren] at h
    cases h
    simp only [Plain.encodeChildren]
    exact Adds.nothing
  | cons f fields ih =>
    obtain ⟨child?, rest, hf, hrest, rfl⟩ := Node.buildChildren_cons_eq_ok h
    have hbehind := ih (fun g hg c hmem =>
      hchild g (List.mem_cons_of_mem _ hg) c (List.mem_append_right _ hmem)) hrest
    cases child? with
    | none =>
      -- No section was built because the field holds none or the author supplied none.
      refine hbehind.imp fun new hnew => ⟨[], new, ?_, hnew, rfl⟩
      rcases Node.buildChild_eq_none hf with hplain | hnone
      · simp [hplain]
      · simp [hnone]
    | some c =>
      have hfirst :=
        hchild f List.mem_cons_self c (List.mem_append_left _ List.mem_cons_self) hf
      have hboth : Adds (fun w => Plain.encodeChildren ctx here ((f.name, c) :: rest) w
          (Plain.field ctx root [])) (Both (kinds f) (Parts kinds members fields)) := by
        simpa [Plain.encodeChildren, Inquiry.bind_apply] using hfirst.andThen hbehind
      refine hboth.imp fun new hnew => ?_
      obtain ⟨j, schema, hj, -⟩ := Node.buildChild_eq_some hf
      have hnested := Node.isNested_of_buildChild hf
      simpa [Parts, hnested, hj] using hnew

theorem adds_encodeNode {schema : Schema} {children : List (String × Node)}
    {first second : List Record → Prop}
    (hfields : Adds (fun w => Plain.encodeFields ctx here schema schema.fields w
      (Plain.field ctx root [])) first)
    (hchildren : Adds (fun w => Plain.encodeChildren ctx here children w
      (Plain.field ctx root [])) second) :
    Adds (fun w => Plain.encodeNode ctx here ⟨schema, none, members, children⟩ w
      (Plain.field ctx root [])) (Both first second) := by
  simpa [Plain.encodeNode, Inquiry.bind_apply] using hfields.andThen hchildren

end
end CrowdScenario

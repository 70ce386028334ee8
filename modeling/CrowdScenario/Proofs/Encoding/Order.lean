import CrowdScenario.Proofs.Encoding.Agreement
import CrowdScenario.Proofs.Encoding.Records
import Mathlib.Algebra.GroupWithZero.Nat

/-!
# The steps of an encoding

An encoding is a sequence of steps, one for every written field and every distribution, in the order
of the tree: a section's own fields come before the sections below it. Each step can be taken alone,
on a tree that nothing was asked of and with nothing written before. The plain encoder writes what
the steps write alone, one after another (`encodeNode_eq`).
-/

namespace CrowdScenario
namespace Encoding

/-- What an encoding does at once: a field or a distribution, of a section at an address. -/
inductive Step where
  | field (here : Address) (schema : Schema) (f : Field)
  | distribution (here : Address) (schema : Schema) (slot : Slot)

mutual

/-- The steps for a section at an address and all below it. -/
def steps (here : Address) : Node → List Step
  | ⟨schema, some slot, _, _⟩ => [.distribution here schema slot]
  | ⟨schema, none, _, children⟩ =>
    (schema.fields.filter (·.emission ≠ .skip)).map (.field here schema) ++
      stepsBelow here children

def stepsBelow (here : Address) : List (String × Node) → List Step
  | [] => []
  | (name, n) :: rest => steps (here ++ [name]) n ++ stepsBelow here rest

end

namespace Step

def run (ctx : Context) (root : Node) : Step → Encoder Unit
  | field here schema f => encodeField ctx root here schema f
  | distribution here schema slot => encodeDistribution ctx root here schema slot

def alone (ctx : Context) (root : Node) (s : Step) : Except CompileError Writer :=
  (Resolution.perform ((s.run ctx root).run .empty) .empty).1.map Prod.snd

end Step

theorem bind_eq_ok {α β : Type} {r : Except CompileError α} {f : α → Except CompileError β} {b : β} :
    (r >>= f) = .ok b ↔ ∃ a, r = .ok a ∧ f a = .ok b := by
  cases r <;> simp [bind, Except.bind]

theorem map_eq_ok {α β : Type} {r : Except CompileError α} {f : α → β} {b : β} :
    r.map f = .ok b ↔ ∃ a, r = .ok a ∧ f a = b := by
  cases r <;> simp [Except.map]

theorem map_eq_error {α β : Type} {r : Except CompileError α} {f : α → β} {e : CompileError} :
    r.map f = .error e ↔ r = .error e := by
  cases r <;> simp [Except.map]

theorem require_eq_ok {α : Type} {path expected : String} {part : Value → Option α} {v : Value}
    {a : α} : Plain.require path expected part v = .ok a ↔ part v = some a := by
  rw [Plain.require]
  cases part v <;> simp

def join (w w' : Writer) : Writer := ⟨w.bytes ++ w'.bytes, w.recordCount + w'.recordCount⟩

@[simp] theorem join_empty (w : Writer) : join w .empty = w := by
  simp [join, Writer.empty]

@[simp] theorem empty_join (w : Writer) : join .empty w = w := by
  simp [join, Writer.empty]

theorem join_assoc (w w' w'' : Writer) : join (join w w') w'' = join w (join w' w'') := by
  simp [join, List.append_assoc, Nat.add_assoc]

theorem map_join_empty (r : Except CompileError Writer) : r.map (join .empty) = r := by
  cases r <;> simp [Except.map]

theorem map_join_join (r : Except CompileError Writer) (w w' : Writer) :
    (r.map (join w')).map (join w) = r.map (join (join w w')) := by
  cases r with
  | error e => rfl
  | ok w'' => exact congrArg Except.ok (join_assoc w w' w'').symm

theorem bind_join {r r' : Except CompileError Writer} {p : Writer → Except CompileError Writer}
    (hp : ∀ w, p w = r'.map (join w)) (w : Writer) :
    (r.map (join w) >>= p) = (r >>= fun w' => r'.map (join w')).map (join w) := by
  cases r with
  | error e => rfl
  | ok w' =>
    show p (join w w') = (r'.map (join w')).map (join w)
    rw [hp, map_join_join]

def combine : List (Except CompileError Writer) → Except CompileError Writer
  | [] => .ok .empty
  | .error e :: _ => .error e
  | .ok w :: rest => (combine rest).map (join w)

theorem combine_cons (r : Except CompileError Writer) (rest : List (Except CompileError Writer)) :
    combine (r :: rest) = r >>= fun w => (combine rest).map (join w) := by
  cases r <;> rfl

theorem combine_append (before behind : List (Except CompileError Writer)) :
    combine (before ++ behind) = combine before >>= fun w => (combine behind).map (join w) := by
  induction before with
  | nil => exact (map_join_empty _).symm
  | cons r rest ih =>
    cases r with
    | error e => rfl
    | ok w =>
      rw [List.cons_append, combine, ih, combine]
      exact (bind_join (fun _ => rfl) w).symm

def joined (ws : List Writer) : Writer :=
  ⟨(ws.map Writer.bytes).flatten, (ws.map Writer.recordCount).sum⟩

theorem combine_eq_ok {results : List (Except CompileError Writer)} {w : Writer} :
    combine results = .ok w ↔ ∃ ws : List Writer, results = ws.map .ok ∧ w = joined ws := by
  induction results generalizing w with
  | nil =>
    constructor
    · intro h
      cases h
      exact ⟨[], rfl, rfl⟩
    · rintro ⟨ws, hws, rfl⟩
      rw [List.map_eq_nil_iff.mp hws.symm]
      rfl
  | cons r rest ih =>
    cases r with
    | error e =>
      constructor
      · nofun
      · rintro ⟨ws, hws, -⟩
        cases ws <;> cases hws
    | ok first =>
      rw [combine, map_eq_ok]
      constructor
      · rintro ⟨w', hrest, rfl⟩
        obtain ⟨ws, rfl, rfl⟩ := ih.mp hrest
        exact ⟨first :: ws, rfl, rfl⟩
      · rintro ⟨ws, hws, rfl⟩
        cases ws with
        | nil => cases hws
        | cons w' ws =>
          cases hws
          exact ⟨joined ws, ih.mpr ⟨ws, rfl, rfl⟩, rfl⟩

theorem combine_eq_error {results : List (Except CompileError Writer)} {e : CompileError} :
    combine results = .error e ↔
      ∃ before behind : List (Except CompileError Writer), results = before ++ .error e :: behind ∧
        ∀ r ∈ before, ∃ w, r = .ok w := by
  induction results with
  | nil =>
    constructor
    · nofun
    · rintro ⟨before, behind, h, -⟩
      cases before <;> cases h
  | cons r rest ih =>
    cases r with
    | error e' =>
      constructor
      · intro h
        cases h
        exact ⟨[], rest, rfl, nofun⟩
      · rintro ⟨before, behind, h, hbefore⟩
        cases before with
        | nil =>
          cases h
          rfl
        | cons r before =>
          cases h
          obtain ⟨w, hw⟩ := hbefore _ List.mem_cons_self
          cases hw
    | ok first =>
      rw [combine, map_eq_error, ih]
      constructor
      · rintro ⟨before, behind, rfl, hbefore⟩
        refine ⟨.ok first :: before, behind, rfl, fun r hr => ?_⟩
        rcases List.mem_cons.mp hr with rfl | hr
        · exact ⟨first, rfl⟩
        · exact hbefore r hr
      · rintro ⟨before, behind, h, hbefore⟩
        cases before with
        | nil => cases h
        | cons r before =>
          cases h
          exact ⟨before, behind, rfl, fun r hr => hbefore r (List.mem_cons_of_mem _ hr)⟩

/-! ### What was written before makes no difference -/

/-- A step that adds the same to every writer. -/
def Additive (p : Writer → Except CompileError Writer) : Prop :=
  ∀ w, p w = (p .empty).map (join w)

namespace Additive

theorem ok : Additive .ok := by
  intro w
  simp [Except.map]

theorem bind {p q : Writer → Except CompileError Writer} (hp : Additive p) (hq : Additive q) :
    Additive fun w => p w >>= q := by
  intro w
  simp only [hp w]
  rw [bind_join hq w, ← funext hq]

theorem put (path : String) (e : Entry) : Additive (Plain.put path e) := by
  intro w
  simp only [Plain.put, Writer.put_eq]
  cases e.toBytes? with
  | error cause => rfl
  | ok bs => simp [Except.map, join, Writer.empty]

theorem putAll (list : List (String × Entry)) : Additive (Plain.putAll list) := by
  induction list with
  | nil => exact ok
  | cons p rest ih => exact (put p.1 p.2).bind ih

theorem writeValue (ctx : Context) (schema : Schema) (f : Field) (id : FieldId) (e : Evaluated) :
    Additive (Plain.writeValue ctx schema f id e) := by
  intro w
  unfold Plain.writeValue
  split
  · cases Plain.require id.path "enum" Value.code? e.value with
    | error c => rfl
    | ok code => simp [Except.map, join, Writer.byte, Writer.append, Writer.empty]
  · cases schema.owner with
    | none => rfl
    | some owner =>
      simp only
      cases Plain.entries ctx owner id e f.emission with
      | error c => rfl
      | ok list => exact putAll list w

end Additive

def Step.plain (ctx : Context) : Step → Writer → Inquiry Writer
  | field here schema f, w => Plain.encodeField ctx here schema f w
  | distribution here schema slot, w => Plain.encodeDistribution here schema slot w

theorem Step.additive_plain (ctx : Context) (read : Reader) (s : Step) :
    Additive fun w => s.plain ctx w read := by
  intro w
  cases s with
  | field here schema f =>
    simp only [plain, Plain.encodeField, Inquiry.bind_apply]
    cases Plain.resolve here schema f.name read with
    | error e => rfl
    | ok e => exact Additive.writeValue ctx schema f ⟨here, f.name⟩ e w
  | distribution here schema slot =>
    simp only [plain, Plain.encodeDistribution, Inquiry.bind_apply]
    cases Plain.distribution here schema read with
    | error e => rfl
    | ok d => exact Additive.put here.path (.distribution slot.coordinate d) w

section
variable (ctx : Context) (read : Reader)

def allPlain (ss : List Step) : Except CompileError Writer :=
  combine (ss.map fun s => s.plain ctx .empty read)

theorem allPlain_nil (w : Writer) : Except.ok w = (allPlain ctx read []).map (join w) := by
  show Except.ok w = .ok (join w .empty)
  rw [join_empty]

theorem allPlain_cons (s : Step) (ss : List Step) :
    allPlain ctx read (s :: ss) =
      s.plain ctx .empty read >>= fun w => (allPlain ctx read ss).map (join w) :=
  combine_cons _ _

theorem allPlain_append (before behind : List Step) :
    allPlain ctx read (before ++ behind) =
      allPlain ctx read before >>= fun w => (allPlain ctx read behind).map (join w) := by
  rw [allPlain, List.map_append, combine_append]
  rfl

theorem plain_bind (s : Step) (ss : List Step) {p : Writer → Except CompileError Writer}
    (hp : ∀ w, p w = (allPlain ctx read ss).map (join w)) (w : Writer) :
    (s.plain ctx w read >>= p) = (allPlain ctx read (s :: ss)).map (join w) := by
  have hadditive := s.additive_plain ctx read w
  simp only at hadditive
  rw [hadditive, bind_join hp w, allPlain_cons]

theorem encodeFields_eq (here : Address) (schema : Schema) (fields : List Field) (w : Writer) :
    Plain.encodeFields ctx here schema fields w read =
      (allPlain ctx read ((fields.filter (·.emission ≠ .skip)).map (.field here schema))).map
        (join w) := by
  induction fields generalizing w with
  | nil => exact allPlain_nil ctx read w
  | cons f rest ih =>
    by_cases hskip : f.emission = .skip
    · rw [Plain.encodeFields, if_pos hskip, List.filter_cons_of_neg (by simpa using hskip)]
      exact ih w
    · rw [Plain.encodeFields, if_neg hskip, List.filter_cons_of_pos (by simpa using hskip),
        List.map_cons]
      exact plain_bind ctx read (.field here schema f) _ ih w

mutual

/-- Without memory an encoding writes what its steps write alone. -/
theorem encodeNode_eq (here : Address) : ∀ (n : Node) (w : Writer),
    Plain.encodeNode ctx here n w read = (allPlain ctx read (steps here n)).map (join w)
  | ⟨schema, some slot, _, _⟩, w => by
    have hstep := plain_bind ctx read (.distribution here schema slot) [] (allPlain_nil ctx read) w
    rw [Plain.encodeNode, steps, ← hstep]
    exact (bind_pure (m := Except CompileError) _).symm
  | ⟨schema, none, _, children⟩, w => by
    rw [Plain.encodeNode, steps, allPlain_append, Inquiry.bind_apply, encodeFields_eq]
    exact bind_join (encodeChildren_eq here children) w

theorem encodeChildren_eq (here : Address) : ∀ (children : List (String × Node)) (w : Writer),
    Plain.encodeChildren ctx here children w read =
      (allPlain ctx read (stepsBelow here children)).map (join w)
  | [], w => by
    rw [Plain.encodeChildren, stepsBelow]
    exact allPlain_nil ctx read w
  | (name, n) :: rest, w => by
    rw [Plain.encodeChildren, stepsBelow, allPlain_append, Inquiry.bind_apply,
      encodeNode_eq (here ++ [name]) n w]
    exact bind_join (encodeChildren_eq here rest) w

end

end

/-! ### Steps of a tree -/

def Step.Of (root : Node) : Step → Prop
  | field here schema f =>
    (∃ n, root.at? here = some n ∧ n.schema = schema) ∧ f ∈ schema.fields ∧ f.emission ≠ .skip
  | distribution _ _ _ => True

section
variable {ctx : Context} {root : Node}

mutual

theorem of_mem_steps (hbelow : ∀ here n, root.at? here = some n → ∀ p ∈ n.children,
      root.at? (here ++ [p.1]) = some p.2) (here : Address) :
    ∀ n, root.at? here = some n → ∀ s ∈ steps here n, s.Of root
  | ⟨schema, some slot, _, _⟩, _, s, hs => by
    rw [steps, List.mem_singleton] at hs
    rw [hs]
    trivial
  | ⟨schema, none, members, children⟩, hn, s, hs => by
    rw [steps, List.mem_append] at hs
    rcases hs with hs | hs
    · obtain ⟨f, hf, rfl⟩ := List.mem_map.mp hs
      obtain ⟨hmem, hemission⟩ := List.mem_filter.mp hf
      exact ⟨⟨_, hn, rfl⟩, hmem, by simpa using hemission⟩
    · exact of_mem_stepsBelow hbelow here children (hbelow here _ hn) s hs

theorem of_mem_stepsBelow (hbelow : ∀ here n, root.at? here = some n → ∀ p ∈ n.children,
      root.at? (here ++ [p.1]) = some p.2) (here : Address) :
    ∀ children : List (String × Node), (∀ p ∈ children, root.at? (here ++ [p.1]) = some p.2) →
      ∀ s ∈ stepsBelow here children, s.Of root
  | [], _, s, hs => by
    rw [stepsBelow] at hs
    cases hs
  | (name, n) :: rest, hat, s, hs => by
    rw [stepsBelow, List.mem_append] at hs
    rcases hs with hs | hs
    · exact of_mem_steps hbelow (here ++ [name]) n (hat (name, n) List.mem_cons_self) s hs
    · exact of_mem_stepsBelow hbelow here rest (fun p hp => hat p (List.mem_cons_of_mem _ hp)) s hs

end

theorem follows_run (hscene : root.SingleScene) (hapart : root.ScenesApart) {s : Step}
    (hs : s.Of root) : Follows ctx root (s.run ctx root) (s.plain ctx) := by
  cases s with
  | field here schema f =>
    obtain ⟨⟨n, hn, rfl⟩, hf, -⟩ := hs
    exact follows_encodeField hscene hapart hn hf
  | distribution here schema slot => exact follows_encodeDistribution hscene here schema slot

/-- Alone a step writes what it writes without memory. -/
theorem alone_eq (hscene : root.SingleScene) (hapart : root.ScenesApart) {s : Step}
    (hs : s.Of root) : s.alone ctx root = s.plain ctx .empty (Plain.field ctx root []) := by
  have hfollows : Agrees ctx root [] ((s.run ctx root).run .empty)
      (s.plain ctx .empty >>= fun w => pure ((), w)) := follows_run hscene hapart hs .empty
  rw [Step.alone, hfollows.fresh, Inquiry.bind_apply]
  cases s.plain ctx .empty (Plain.field ctx root []) <;> rfl

def single? (owner : Section) (v : Value) : Emission → Option Entry
  | .flag element => v.bool?.map (.flag ⟨owner, element⟩)
  | .float element => v.float?.map (.float ⟨owner, element⟩)
  | .seconds element => (v.float?.bind endTime?).map fun t => .seconds ⟨owner, element⟩ t.toSeconds
  | _ => none

/-- The records of a scene: its geometry, clamped if the settings say so, then its location. -/
def sceneRecords (settings : Settings) (c : Coordinate) (file : String)
    (geometry : List Geometry) : List Entry :=
  geometry.map (fun g => .geometry (if settings.clampCoordinates then g.clamped else g)) ++
    [.text c file]

/-- What a step writes alone: a distribution and most fields one record, a scene one record more
than it has geometry, and a field that opens the document a byte that is no record. -/
inductive Step.Writes (ctx : Context) (root : Node) : Step → Writer → Prop
  | distribution {here : Address} {schema : Schema} {slot : Slot} {d : Distribution} {bs : Bytes}
      (resolved : Distributes ctx root here schema d)
      (written : (Entry.distribution slot.coordinate d).toBytes? = .ok bs) :
      Writes ctx root (.distribution here schema slot) ⟨bs, 1⟩
  | opening {here : Address} {schema : Schema} {f : Field} {v : Value} {code : Byte}
      (emission : f.emission = .leadingByte) (resolved : Resolves ctx root here schema f.name v)
      (coded : v.code? = some code) :
      Writes ctx root (.field here schema f) ⟨[code], 0⟩
  | record {here : Address} {schema : Schema} {f : Field} {v : Value} {owner : Section} {e : Entry}
      {bs : Bytes} (resolved : Resolves ctx root here schema f.name v)
      (owned : schema.owner = some owner) (entry : single? owner v f.emission = some e)
      (written : e.toBytes? = .ok bs) :
      Writes ctx root (.field here schema f) ⟨bs, 1⟩
  | scene {here : Address} {schema : Schema} {f : Field} {element : Element} {v : Value}
      {owner : Section} {file : String} {geometry : List Geometry} {records : List Bytes}
      (emission : f.emission = .sceneFile element)
      (resolved : Resolves ctx root here schema f.name v) (named : v.text? = some file)
      (owned : schema.owner = some owner)
      (ingested : f.kind = .sceneFile → ctx.ingest (ctx.scenePath file) = .ok geometry)
      (bare : f.kind ≠ .sceneFile → geometry = [])
      (written : List.Forall₂ (fun e bs => e.toBytes? = .ok bs)
        (sceneRecords ctx.settings ⟨owner, element⟩ file geometry) records) :
      Writes ctx root (.field here schema f) ⟨records.flatten, geometry.length + 1⟩

theorem put_eq_ok {path : String} {e : Entry} {w w' : Writer} (h : Plain.put path e w = .ok w') :
    ∃ bs, e.toBytes? = .ok bs ∧ w' = join w ⟨bs, 1⟩ := by
  rw [Plain.put, Writer.put_eq] at h
  cases hbs : e.toBytes? with
  | error cause =>
    rw [hbs] at h
    cases h
  | ok bs =>
    rw [hbs] at h
    cases h
    exact ⟨bs, rfl, rfl⟩

theorem putAll_eq_ok {list : List (String × Entry)} {w w' : Writer}
    (h : Plain.putAll list w = .ok w') :
    ∃ records, List.Forall₂ (fun e bs => e.toBytes? = .ok bs) (list.map Prod.snd) records ∧
      w' = join w ⟨records.flatten, list.length⟩ := by
  induction list generalizing w with
  | nil =>
    cases h
    exact ⟨[], .nil, (join_empty _).symm⟩
  | cons p rest ih =>
    obtain ⟨w1, hput, hrest⟩ := bind_eq_ok.mp h
    obtain ⟨bs, hbs, rfl⟩ := put_eq_ok hput
    obtain ⟨records, hrecords, rfl⟩ := ih hrest
    refine ⟨bs :: records, .cons hbs hrecords, ?_⟩
    rw [join_assoc, List.flatten_cons, List.length_cons, Nat.add_comm]
    rfl

theorem single?_of_entries {owner : Section} {id : FieldId} {e : Evaluated} {emission : Emission}
    {list : List (String × Entry)} (hskip : emission ≠ .skip) (hleading : emission ≠ .leadingByte)
    (hscene : emission.isScene = false) (h : Plain.entries ctx owner id e emission = .ok list) :
    ∃ entry, single? owner e.value emission = some entry ∧ list = [(id.path, entry)] := by
  cases emission with
  | skip => exact absurd rfl hskip
  | leadingByte => exact absurd rfl hleading
  | sceneFile element => cases hscene
  | flag element =>
    obtain ⟨b, hb, hlist⟩ := bind_eq_ok.mp h
    cases hlist
    exact ⟨_, by rw [single?, require_eq_ok.mp hb]; rfl, rfl⟩
  | float element =>
    obtain ⟨x, hx, hlist⟩ := bind_eq_ok.mp h
    cases hlist
    exact ⟨_, by rw [single?, require_eq_ok.mp hx]; rfl, rfl⟩
  | seconds element =>
    obtain ⟨x, hx, hlist⟩ := bind_eq_ok.mp h
    split at hlist
    · next t ht =>
      cases hlist
      exact ⟨_, by rw [single?, require_eq_ok.mp hx, Option.bind_some, ht]; rfl, rfl⟩
    · cases hlist

theorem records_of_finish {id : FieldId} {kind : FieldKind} {input? : Option Input}
    {e : Evaluated} {file : String} (h : Plain.finish ctx id kind input? = .ok e)
    (hfile : e.value.text? = some file) :
    (kind = .sceneFile → ctx.ingest (ctx.scenePath file) = .ok (Plain.records e)) ∧
      (kind ≠ .sceneFile → Plain.records e = []) := by
  constructor
  · rintro rfl
    obtain ⟨file', geometry, hvalue, hingest, hrecords⟩ := Plain.finish_sceneFile h
    rw [hvalue] at hfile
    cases hfile
    rw [hrecords, hingest]
  · intro hkind
    have hsides : e.sides = [] := by
      by_contra hne
      exact hkind (Plain.kind_of_finish h hne)
    rw [Plain.records, hsides]
    rfl

theorem isNested_of_encodeField {here : Address} {n : Node} {f : Field} {w w' : Writer}
    {read : Reader} (hf : f ∈ n.schema.fields)
    (h : Plain.encodeField ctx here n.schema f w read = .ok w') : f.kind.isNested = false := by
  obtain ⟨e, he, -⟩ := Inquiry.bind_eq_ok.mp h
  rw [Plain.resolve, n.schema.field?_of_mem hf] at he
  cases hnested : f.kind.isNested with
  | false => rfl
  | true =>
    simp only [hnested, if_pos] at he
    cases he

theorem map_snd_sceneEntries (settings : Settings) (c : Coordinate) (id : FieldId) (file : String)
    (geometry : List Geometry) :
    (sceneEntries settings c id file geometry).map Prod.snd =
      sceneRecords settings c file geometry := by
  simp [sceneEntries, sceneRecords]

section
variable {here : Address} {schema : Schema} {f : Field} {e : Evaluated} {input? : Option Input}
  {owner : Section} {w : Writer}

theorem writes_of_entries {list : List (String × Entry)} {records : List Bytes}
    (hresolves : Resolves ctx root here schema f.name e.value)
    (hfinish : Plain.finish ctx ⟨here, f.name⟩ f.kind input? = .ok e)
    (howner : schema.owner = some owner) (hskip : f.emission ≠ .skip)
    (hleading : f.emission ≠ .leadingByte)
    (hentries : Plain.entries ctx owner ⟨here, f.name⟩ e f.emission = .ok list)
    (hrecords : List.Forall₂ (fun e bs => e.toBytes? = .ok bs) (list.map Prod.snd) records) :
    Step.Writes ctx root (.field here schema f) ⟨records.flatten, list.length⟩ := by
  cases hisScene : f.emission.isScene with
  | false =>
    obtain ⟨entry, hentry, rfl⟩ := single?_of_entries hskip hleading hisScene hentries
    obtain ⟨bs, _, hbs, hnil, rfl⟩ := List.forall₂_cons_left_iff.mp hrecords
    cases hnil
    have hwrites : Step.Writes ctx root (.field here schema f) ⟨bs, 1⟩ :=
      .record hresolves howner hentry hbs
    simpa using hwrites
  | true =>
    cases hemission : f.emission with
    | sceneFile element =>
      rw [hemission] at hentries
      obtain ⟨file, hrequire, hlist⟩ := bind_eq_ok.mp hentries
      have hfile := require_eq_ok.mp hrequire
      cases hlist
      obtain ⟨hingested, hbare⟩ := records_of_finish hfinish hfile
      rw [map_snd_sceneEntries] at hrecords
      have hwrites : Step.Writes ctx root (.field here schema f)
          ⟨records.flatten, (Plain.records e).length + 1⟩ :=
        .scene hemission hresolves hfile howner hingested hbare hrecords
      simpa [sceneEntries] using hwrites
    | _ =>
      rw [hemission] at hisScene
      cases hisScene

theorem writes_of_value (hresolves : Resolves ctx root here schema f.name e.value)
    (hfinish : Plain.finish ctx ⟨here, f.name⟩ f.kind input? = .ok e) (hskip : f.emission ≠ .skip)
    (hwrite : Plain.writeValue ctx schema f ⟨here, f.name⟩ e .empty = .ok w) :
    Step.Writes ctx root (.field here schema f) w := by
  rw [Plain.writeValue] at hwrite
  split at hwrite
  · next hleading =>
    obtain ⟨code, hcode, rfl⟩ := map_eq_ok.mp hwrite
    exact .opening hleading hresolves (require_eq_ok.mp hcode)
  · next hleading =>
    split at hwrite
    · cases hwrite
    · next owner howner =>
      obtain ⟨list, hentries, hput⟩ := bind_eq_ok.mp hwrite
      obtain ⟨records, hrecords, rfl⟩ := putAll_eq_ok hput
      rw [empty_join]
      exact writes_of_entries hresolves hfinish howner hskip hleading hentries hrecords

end

theorem writes_of_alone (hscene : root.SingleScene) (hapart : root.ScenesApart) {s : Step}
    (hs : s.Of root) {w : Writer} (h : s.alone ctx root = .ok w) : s.Writes ctx root w := by
  rw [alone_eq hscene hapart hs] at h
  cases s with
  | distribution here schema slot =>
    obtain ⟨d, hd, hput⟩ := Inquiry.bind_eq_ok.mp h
    obtain ⟨bs, hbs, rfl⟩ := put_eq_ok hput
    have hagrees : Agrees ctx root [] (Resolution.distribution ctx root here schema)
        (Plain.distribution here schema) := Agrees.distribution hscene here schema
    have hresolved : Distributes ctx root here schema d := by
      rw [Distributes, hagrees.fresh, hd]
    rw [empty_join]
    exact .distribution hresolved hbs
  | field here schema f =>
    obtain ⟨⟨n, hn, rfl⟩, hf, hskip⟩ := hs
    have hplain := isNested_of_encodeField hf h
    obtain ⟨e, input?, hresolves, hfinish, hwrite⟩ := encodeField_eq_ok hscene hn hf hplain h
    exact writes_of_value hresolves hfinish hskip hwrite

end

end Encoding
end CrowdScenario

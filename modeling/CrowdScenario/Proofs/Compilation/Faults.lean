import CrowdScenario.Proofs.Compilation.Places
import CrowdScenario.Proofs.Compilation.References
import CrowdScenario.Proofs.Compilation.Strictness
import CrowdScenario.Proofs.Encoding.Failures
import CrowdScenario.Proofs.Resolution.Paths

/-!
# Faulty references

A failure about a reference names the field that the reference stands in, through however many other
fields that field was asked for. The references of a schema lead somewhere or need not, so that in a
description of a crowd simulation an author wrote the reference that is to blame, where the failure
says (`compile_blames_reference`).
-/

namespace CrowdScenario

namespace Inquiry

/-- An inquiry that only fails about references where a field does that it asks for. -/
def Relays {α : Type} (p : Inquiry α) : Prop :=
  ∀ read e, p read = .error e → e.blamesReference = true → ∃ id, read id = .error e

theorem bind_eq_error {α β : Type} {p : Inquiry α} {q : α → Inquiry β} {read : Reader}
    {e : CompileError} :
    (p >>= q) read = .error e ↔ p read = .error e ∨ ∃ a, p read = .ok a ∧ q a read = .error e := by
  rw [bind_apply]
  cases p read <;> simp [bind, Except.bind]

namespace Relays

theorem ofExcept {α : Type} {result : Except CompileError α} (h : BlamesNone result) :
    Relays (Plain.ofExcept result) := by
  intro read e he hblames
  rw [h e he] at hblames
  cases hblames

theorem pure {α : Type} (a : α) : Relays (Pure.pure a) := ofExcept (.ok a)

theorem ask (id : FieldId) : Relays (Plain.ask id) := fun _ _ he _ => ⟨id, he⟩

theorem bind {α β : Type} {p : Inquiry α} {q : α → Inquiry β} (hp : Relays p)
    (hq : ∀ a, Relays (q a)) : Relays (p >>= q) := by
  intro read e he hblames
  rcases bind_eq_error.mp he with hfails | ⟨a, -, hfails⟩
  · exact hp read e hfails hblames
  · exact hq a read e hfails hblames

end Relays
end Inquiry

namespace Plain

open Inquiry

theorem relays_readTarget (t : Node.Target) : Relays (readTarget t) := by
  refine (Relays.ask t.field).bind fun e => ?_
  split <;> exact .pure _

theorem relays_resolve (here : Address) (schema : Schema) (name : String) :
    Relays (resolve here schema name) := by
  unfold resolve
  split
  · exact .ofExcept (.error rfl)
  · split
    · exact .ofExcept (.error rfl)
    · exact .ask _

theorem relays_distributionKind (here : Address) (schema : Schema) :
    Relays (distributionKind here schema) := by
  refine (relays_resolve here schema Schema.kindField).bind fun e => ?_
  simp only
  cases DistributionKind.ofName? (e.value.text?.getD "") with
  | some kind => exact .pure _
  | none => exact .ofExcept (.error rfl)

theorem relays_distributionNumber (here : Address) (schema : Schema) (name : String) :
    Relays (distributionNumber here schema name) := by
  refine (relays_resolve here schema name).bind fun e => ?_
  cases e.value.float? with
  | some x => exact .pure _
  | none => exact .ofExcept (.error rfl)

theorem relays_distribution (here : Address) (schema : Schema) :
    Relays (distribution here schema) :=
  (relays_distributionKind here schema).bind fun kind =>
    (relays_distributionNumber here schema kind.firstName).bind fun _ =>
      (relays_distributionNumber here schema kind.secondName).bind fun _ => .pure _

theorem blamesNone_finish (ctx : Context) (id : FieldId) (kind : FieldKind)
    (input? : Option Input) : BlamesNone (finish ctx id kind input?) := by
  unfold finish
  split
  · intro e he
    cases hfile : sceneFileOf id.path input? with
    | error e' =>
      rw [hfile] at he
      cases he
      exact blamesNone_sceneFileOf id.path input? e hfile
    | ok file =>
      rw [hfile] at he
      have hingest : ingestScene ctx id file = .error e := he
      unfold ingestScene at hingest
      split at hingest
      · cases hingest
        rfl
      · cases hingest
  · exact (blamesNone_coerce _ _ _).map _

/-- A reference among the sources of a field that fails there, or a field that comes back to itself.
What a reference leads to does not depend on the fields that are under way when it leads nowhere. -/
inductive Fault (ctx : Context) (root : Node) : CompileError → Prop
  | malformed {id : FieldId} {n : Node} {f : Field} {expression : String} {required : Bool}
      (declared : root.field? id = some (n, f))
      (stands : .reference expression required ∈ n.sources ctx.settings.strictReferences f)
      (unparsed : Reference.parse? expression = none) :
      Fault ctx root (.malformedReference expression id.path)
  | unresolved {id : FieldId} {n : Node} {f : Field} {expression : String}
      (declared : root.field? id = some (n, f))
      (stands : .reference expression true ∈ n.sources ctx.settings.strictReferences f)
      (nowhere : follow root expression id.path (field ctx root []) = .ok none) :
      Fault ctx root (.unresolvedReference expression id.path)
  | cyclic (id : FieldId) : Fault ctx root (.cyclicReference id.path)

section
variable {ctx : Context} {root : Node} {e : CompileError}

theorem follow_eq_error {expression path : String} {read : Reader}
    (h : follow root expression path read = .error e) (hblames : e.blamesReference = true) :
    (∃ id, read id = .error e) ∨
      e = .malformedReference expression path ∧ Reference.parse? expression = none := by
  unfold follow at h
  cases hparse : Reference.parse? expression with
  | none =>
    rw [hparse] at h
    cases h
    exact .inr ⟨rfl, rfl⟩
  | some reference =>
    rw [hparse] at h
    cases hlocate : root.locate? [] reference with
    | none =>
      simp only [hlocate] at h
      cases h
    | some t =>
      simp only [hlocate] at h
      exact .inl (relays_readTarget t read e h hblames)

theorem firstInput_eq_error {path : String} {sources : List Source} {read : Reader}
    (h : firstInput root path sources read = .error e) (hblames : e.blamesReference = true) :
    (∃ id, read id = .error e) ∨ ∃ expression required, .reference expression required ∈ sources ∧
      (e = .malformedReference expression path ∧ Reference.parse? expression = none ∨
        e = .unresolvedReference expression path ∧ required = true ∧
          follow root expression path read = .ok none) := by
  induction sources with
  | nil => cases h
  | cons source rest ih =>
    cases source with
    | given i => cases h
    | reference expression required =>
      rcases bind_eq_error.mp h with hfollow | ⟨v?, hfollow, hrest⟩
      · rcases follow_eq_error hfollow hblames with hasked | hmalformed
        · exact .inl hasked
        · exact .inr ⟨expression, required, List.mem_cons_self, .inl hmalformed⟩
      · cases v? with
        | some v => cases hrest
        | none =>
          cases required with
          | true =>
            cases hrest
            exact .inr ⟨expression, true, List.mem_cons_self, .inr ⟨rfl, rfl, hfollow⟩⟩
          | false =>
            rcases ih hrest with hasked | ⟨expression', required', hmem, hfault⟩
            · exact .inl hasked
            · exact .inr ⟨expression', required', List.mem_cons_of_mem _ hmem, hfault⟩

theorem fault_of_field {busy : List FieldId} {id : FieldId} (h : field ctx root busy id = .error e)
    (hblames : e.blamesReference = true) : Fault ctx root e := by
  -- Every field that is asked for leaves fewer to be asked for.
  induction hn : (left root busy).length using Nat.strongRecOn generalizing busy id with
  | _ size ih =>
    rw [field] at h
    by_cases hbusy : id ∈ busy
    · rw [dif_pos hbusy] at h
      cases h
      exact .cyclic id
    by_cases hid : id ∈ root.scalars []
    · rw [dif_neg hbusy, dif_pos hid] at h
      cases hfield : root.field? id with
      | none =>
        rw [hfield] at h
        cases h
        cases hblames
      | some p =>
        rcases p with ⟨n, f⟩
        rw [hfield] at h
        rcases bind_eq_error.mp h with hinput | ⟨input?, -, hfinish⟩
        · rcases firstInput_eq_error hinput hblames with ⟨id', hid'⟩ | ⟨expression, required, hmem,
            ⟨rfl, hparse⟩ | ⟨rfl, rfl, hnowhere⟩⟩
          · have hlt := length_left_lt hid hbusy
            rw [hn] at hlt
            exact ih _ hlt hid' rfl
          · exact .malformed hfield hmem hparse
          · have hbelow : (field ctx root (id :: busy)).Below (field ctx root []) :=
              below_of_subset fun _ hnil => absurd hnil List.not_mem_nil
            exact .unresolved hfield hmem
              (monotone_follow root expression id.path _ _ hbelow _ hnowhere)
        · rw [blamesNone_finish ctx id f.kind input? e hfinish] at hblames
          cases hblames
    · rw [dif_neg hbusy, dif_neg hid] at h
      cases h
      cases hblames

theorem fault_of_relays {α : Type} {p : Inquiry α} (hp : p.Relays)
    (h : p (field ctx root []) = .error e) (hblames : e.blamesReference = true) :
    Fault ctx root e := by
  obtain ⟨id, hid⟩ := hp _ e h hblames
  exact fault_of_field hid hblames

end

end Plain

namespace Encoding

section
variable {ctx : Context} {root : Node} {e : CompileError}

theorem fault_of_step (hscene : root.SingleScene) {s : Step} (h : s.alone ctx root = .error e)
    (hblames : e.blamesReference = true) : Plain.Fault ctx root e := by
  have hrun : Resolution.perform ((s.run ctx root).run .empty) .empty =
      (.error e, (Resolution.perform ((s.run ctx root).run .empty) .empty).2) :=
    Prod.ext (map_eq_error.mp h) rfl
  cases s with
  | field here schema f =>
    rcases fails_encodeField hrun with hfails | ⟨v, m, -, hwrite⟩
    · have hagrees : Agrees ctx root [] (Resolution.resolve ctx root here schema f.name)
          (Plain.resolve here schema f.name >>= fun e => pure e.value) :=
        Agrees.resolve hscene here schema f.name
      have hfresh := hagrees.fresh
      rw [hfails] at hfresh
      exact Plain.fault_of_relays
        ((Plain.relays_resolve here schema f.name).bind fun e => .pure e.value) hfresh.symm hblames
    · have hnone := blameless_writeValue ctx schema f ⟨here, f.name⟩ v .empty m e
        (congrArg Prod.fst hwrite)
      rw [hnone] at hblames
      cases hblames
  | distribution here schema slot =>
    have hagrees : Agrees ctx root [] (Resolution.distribution ctx root here schema)
        (Plain.distribution here schema) := Agrees.distribution hscene here schema
    have hfresh := hagrees.fresh
    rw [fails_encodeDistribution hrun] at hfresh
    exact Plain.fault_of_relays (Plain.relays_distribution here schema) hfresh.symm hblames

end

end Encoding

/-- A compilation that fails about a reference has a tree with that reference. -/
theorem fault_of_compile {settings : Settings} {ingest : Ingestor} {d : Description}
    {e : CompileError} (h : compile settings .standard ingest d = .error e)
    (hblames : e.blamesReference = true) :
    ∃ root, Node.ofDescription .standard d.members = .ok root ∧
      Plain.Fault ⟨settings, d.directory?, ingest⟩ root e := by
  cases hroot : Node.ofDescription .standard d.members with
  | error c =>
    unfold compile Compilation.run at h
    rw [hroot] at h
    cases h
    rw [Node.blamesNone_ofDescription d.members e hroot] at hblames
    cases hblames
  | ok root =>
    obtain ⟨before, s, behind, -, -, hs⟩ := (compile_eq_error_iff hroot).mp h
    obtain ⟨hscene, -⟩ := Layout.scenes_of_description hroot
    exact ⟨root, rfl, Encoding.fault_of_step hscene hs hblames⟩

/-! ### Texts of an author -/

namespace Address

def ofPath (path : String) : Address := (Text.parts '.' path.toList).map String.ofList

theorem ofPath_path {a : Address} (hne : a ≠ []) (h : a.Fits) : ofPath a.path = a := by
  have hnames : a.map String.toList ≠ [] := fun heq => hne (List.map_eq_nil_iff.mp heq)
  have hpoints : ∀ p ∈ a.map String.toList, '.' ∉ p := by
    intro p hp
    obtain ⟨name, hname, rfl⟩ := List.mem_map.mp hp
    exact (h name hname).2.1
  rw [ofPath, toList_path h, Text.parts_joinParts hnames hpoints, List.map_map]
  exact List.map_id'' (fun name => String.ofList_toList) a

end Address

/-- An author wrote a text at a path. The mean of a distribution may be written in place of the
distribution. -/
inductive Node.Wrote (root : Node) (members : Json.Members) (text : String) : String → Prop
  | there {path : String}
      (supplied : Json.suppliedAt? members (Address.ofPath path) = some (.string text)) :
      Wrote root members text path
  | around {path : String} {n : Node} (stands : root.at? (Address.ofPath path) = some n)
      (distribution : n.slot? ≠ none)
      (supplied : Json.suppliedAt? members (Address.ofPath path) = some (.string text)) :
      Wrote root members text (joinPath path DistributionKind.normal.firstName)

theorem Input.eq_string_of_reference? {j : Json} {expression : String}
    (h : (Input.json j).reference? = some expression) : j = .string expression := by
  cases j with
  | string s =>
    have href : (if Reference.isReference s then some s else none) = some expression := h
    split at href
    · cases href
      rfl
    · cases href
  | _ => cases h

namespace Layout

section
variable {members : Json.Members} {root n : Node} {id : FieldId} {f : Field} {expression : String}

theorem wrote_of_supplied (hroot : Node.ofDescription .standard members = .ok root)
    (hfield : root.field? id = some (n, f)) {j : Json}
    (hj : Json.supplied? n.members f.name = some j)
    (href : (Input.json j).reference? = some expression) :
    root.Wrote members expression id.path := by
  obtain ⟨hn, hf⟩ := Node.field?_eq_some.mp hfield
  obtain ⟨hmem, hname⟩ := Schema.mem_of_field? hf
  have hbuilt := Node.built_ofDescription hroot
  have hfits : id.owner.Fits := Node.fits_of_at? hbuilt Tagged.names_fit hn
  cases Node.origin_of_at? hroot hn with
  | block _ written =>
    have hfit := Tagged.names_fit n.schema (hbuilt.of_at? hn).mem_schemas f hmem
    rw [hname] at hfit
    have hat := written f.name
    rw [hj, hname, Input.eq_string_of_reference? href] at hat
    refine .there ?_
    rwa [FieldId.path_eq, Address.ofPath_path (List.concat_ne_nil _ _) (hfits.concat hfit)]
  | @value above p g slot j' address parent declared kind written single slotted around leaf =>
    rw [around] at hj
    obtain ⟨hmean, rfl⟩ := Node.reference?_of_fixedBlock hj href
    have howner : Address.ofPath id.owner.path = id.owner := by
      refine Address.ofPath_path ?_ hfits
      rw [address]
      exact List.concat_ne_nil _ _
    have hdistribution : n.slot? ≠ none := by simp [slotted]
    rw [FieldId.path, ← hname, hmean]
    refine .around (by rw [howner, hn]) hdistribution ?_
    rw [howner, written, Input.eq_string_of_reference? href]

/-- A reference among the sources of a field is the one of an author, or it is well formed and need
not lead anywhere. -/
theorem wrote_of_stands {strict required : Bool}
    (hroot : Node.ofDescription .standard members = .ok root)
    (hfield : root.field? id = some (n, f))
    (h : .reference expression required ∈ n.sources strict f) :
    root.Wrote members expression id.path ∧ required = strict ∨
      required = false ∧ Reference.parse? expression ≠ none := by
  obtain ⟨hn, hf⟩ := Node.field?_eq_some.mp hfield
  simp only [Node.sources, List.mem_append, Option.mem_toList, List.mem_map,
    Option.map_eq_some_iff] at h
  rcases h with (⟨j, hj, hauthor⟩ | ⟨d, hd, hdefault⟩) | ⟨d, hd, hdefault⟩
  · have href := reference?_of_author hauthor
    have hstrict : required = strict := by
      rw [Source.ofAuthor, href] at hauthor
      cases hauthor
      rfl
    exact .inl ⟨wrote_of_supplied hroot hfield hj href, hstrict⟩
  · cases eq_reference_of_default hdefault
    cases hdefault
    obtain ⟨slot, hslot, hlookup⟩ := Option.bind_eq_some_iff.mp hd
    obtain ⟨-, hexpression⟩ := arrivals_of_fallback _ (mem_places_of_at? hroot hn) slot hslot
      _ (mem_of_lookup hlookup) rfl
    cases hexpression
    exact .inr ⟨rfl, by decide⟩
  · cases eq_reference_of_default hdefault
    have hknown := ((Node.built_ofDescription hroot).of_at? hn).mem_schemas
    exact absurd rfl (literal_of_default n.schema hknown f (Schema.mem_of_field? hf).1 _ hd)

end

end Layout

/-- A compilation that fails about a reference blames the place where an author wrote it, whatever
else was asked for on the way there. A malformed reference has no segments; one that does not resolve
leads nowhere on a fresh tree either, and had to lead somewhere. -/
theorem compile_blames_reference (settings : Settings) (ingest : Ingestor) (d : Description) :
    (∀ expression path,
      compile settings .standard ingest d = .error (.unresolvedReference expression path) →
        settings.strictReferences = true ∧
          ∃ root, Node.ofDescription .standard d.members = .ok root ∧
            root.Wrote d.members expression path ∧
            (Resolution.perform (Resolution.resolveReference ⟨settings, d.directory?, ingest⟩ root
              expression) .empty).1 = .ok none) ∧
    ∀ expression path,
      compile settings .standard ingest d = .error (.malformedReference expression path) →
        Reference.parse? expression = none ∧
          ∃ root, Node.ofDescription .standard d.members = .ok root ∧
            root.Wrote d.members expression path := by
  constructor
  · intro expression path h
    obtain ⟨root, hroot, hfault⟩ := fault_of_compile h rfl
    cases hfault with
    | unresolved declared stands nowhere =>
      rcases Layout.wrote_of_stands hroot declared stands with ⟨hwrote, hstrict⟩ | ⟨hfalse, -⟩
      · obtain ⟨hscene, -⟩ := Layout.scenes_of_description hroot
        refine ⟨hstrict.symm, root, hroot, hwrote, ?_⟩
        rw [(Agrees.resolveReference hscene expression).fresh]
        exact Plain.follow_path nowhere
      · cases hfalse
  · intro expression path h
    obtain ⟨root, hroot, hfault⟩ := fault_of_compile h rfl
    cases hfault with
    | malformed declared stands unparsed =>
      rcases Layout.wrote_of_stands hroot declared stands with ⟨hwrote, -⟩ | ⟨-, hparsed⟩
      · exact ⟨unparsed, root, hroot, hwrote⟩
      · exact absurd unparsed hparsed

namespace Misled

/-- The rate of arrivals is said to be how far ahead is seen, and that stands at another place. -/
def description (place : String) : Description where
  members := [("fov", .object [("forward", .string place)]),
    ("spawn", .object [("rate", .string "ref:fov.forward.mean")])]
  directory? := none

end Misled

open Misled in
theorem compile_blames_reference_mean :
    (compile .standard .standard (fun _ => .ok []) (description "ref:nowhere") =
        .error (.unresolvedReference "ref:nowhere" "fov.forward.mean") ∧
      ∃ root, Node.ofDescription .standard (description "ref:nowhere").members = .ok root ∧
        root.Wrote (description "ref:nowhere").members "ref:nowhere" "fov.forward.mean" ∧
        (Resolution.perform (Resolution.resolveReference ⟨.standard, none, fun _ => .ok []⟩ root
          "ref:nowhere") .empty).1 = .ok none) ∧
    compile .standard .standard (fun _ => .ok []) (description "ref:no..where") =
        .error (.malformedReference "ref:no..where" "fov.forward.mean") ∧
      Reference.parse? "ref:no..where" = none := by
  obtain ⟨hunresolved, -⟩ :=
    compile_blames_reference .standard (fun _ => .ok []) (description "ref:nowhere")
  obtain ⟨-, hmalformed⟩ :=
    compile_blames_reference .standard (fun _ => .ok []) (description "ref:no..where")
  have hnowhere : compile .standard .standard (fun _ => .ok []) (description "ref:nowhere") =
      .error (.unresolvedReference "ref:nowhere" "fov.forward.mean") := by
    cbv
  have hunparsed : compile .standard .standard (fun _ => .ok []) (description "ref:no..where") =
      .error (.malformedReference "ref:no..where" "fov.forward.mean") := by
    cbv
  obtain ⟨-, hroot⟩ := hunresolved _ _ hnowhere
  exact ⟨⟨hnowhere, hroot⟩, hunparsed, (hmalformed _ _ hunparsed).1⟩

end CrowdScenario

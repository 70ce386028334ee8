import CrowdScenario.Proofs.Compilation.Alike
import CrowdScenario.Proofs.Compilation.Places

/-!
# Defaults made explicit

In a description of a crowd simulation a field that is left out can be written out instead: numbers
are zero, the density map is off, the simulation is a flow, and arrivals end with the times if there
are any. Nothing changes, whichever fields are written out (`interchangeable_with_defaults`).
-/

namespace CrowdScenario

def Default.toJson : Default → Json
  | int n => .integer n.toInt
  | float x => .float x
  | text s => .string s
  | bool b => .bool b
  | reference expression => .string expression

namespace Layout

def numbers : List (Address × String) :=
  [(["scene"], "scale"), (["time"], "end_time"), (["time"], "tick"), (["spawn"], "rate"),
    (["density_map"], "min_threshold"), (["density_map"], "max_threshold")]

def parameters : List String :=
  ["from", "to", "mean", "std_deviation", "avg_rate", "rate_deviation"]

/-- What may be written in a field instead of leaving it out, by the address of its block and the slot
that the block fills. The end of the arrivals depends on whether there is a block with times. -/
def unsaid? (timed : Bool) (here : Address) (slot? : Option Slot) (name : String) :
    Option Default :=
  if here = [] ∧ name = "type" then some (.text "flow")
  else if here = ["density_map"] ∧ name = "enabled" then some (.bool false)
  else if timed ∧ here = ["spawn", "time"] ∧ name = "to" then some (.reference "ref:time.end_time")
  else if (here, name) ∈ numbers ∨ slot?.isSome ∧ name ∈ parameters then some (.float .zero)
  else none

def defaults (slot? : Option Slot) (f : Field) : List Default :=
  (slot?.bind fun slot => slot.fallbacks.lookup f.name).toList ++ f.default?.toList

/-- Whether a value stands for what a field comes to without it. -/
def standsFor (timed : Bool) (kind : FieldKind) (defaults : List Default) : Default → Bool
  | .float x => kind = .float ∧ x = .zero ∧
      ∀ d ∈ defaults, d = .float .zero ∨ timed = false ∧ d = .reference "ref:time.end_time"
  | .text s => kind = .choice Schema.simulationVariants ∧ s = "flow" ∧ defaults = [.text s]
  | .bool b => kind = .bool ∧ b = false ∧ defaults = []
  | .reference expression => timed = true ∧ expression = "ref:time.end_time" ∧
      defaults.head? = some (.reference expression)
  | .int _ => false

theorem standsFor_of_unsaid : ∀ timed, ∀ p ∈ places, ∀ s ∈ Registry.standard.schemas,
    s.name = p.2.1 → ∀ f ∈ s.fields, ∀ d ∈ unsaid? timed p.1 p.2.2 f.name,
      standsFor timed f.kind (defaults p.2.2 f) d = true := by
  decide

theorem sources_eq_defaults (n : Node) (strict : Bool) (f : Field) :
    n.sources strict f = ((Json.supplied? n.members f.name).map (Source.ofAuthor strict)).toList ++
      (defaults n.slot? f).map Source.ofDefault := by
  rw [Node.sources, defaults, List.map_append, List.append_assoc, Node.fallback?]

section
variable {members : Json.Members} {root : Node}

theorem isSome_child? (hroot : Node.ofDescription .standard members = .ok root) {f : Field}
    (hf : f ∈ root.schema.fields) (hnested : f.kind.isNested = true) :
    (root.child? f.name).isSome = (Json.supplied? members f.name).isSome := by
  have hbuilt := Node.built_ofDescription hroot
  obtain ⟨schema, -, hbuild⟩ := Node.ofDescription_eq_ok hroot
  obtain ⟨children, hchildren, rfl⟩ := Node.build_eq_ok hbuild
  obtain ⟨child?, hchild, hmem⟩ := Node.child_of_mem_fields hchildren hf
  cases child? with
  | none =>
    have hnone : Json.supplied? members f.name = none := by
      cases Node.buildChild_eq_none hchild with
      | inl hplain =>
        rw [hnested] at hplain
        cases hplain
      | inr hnone => exact hnone
    cases hc : Node.child? ⟨schema, none, members, children⟩ f.name with
    | none =>
      rw [hnone]
      rfl
    | some c =>
      have hat : Node.at? ⟨schema, none, members, children⟩ ([] ++ [f.name]) = some c := by
        rw [List.nil_append, Node.at?, hc]
        rfl
      obtain ⟨j, hj⟩ := Node.suppliedAt?_of_at? hroot hat
      have hsome : Json.supplied? members f.name = some j := hj
      rw [hnone] at hsome
      cases hsome
  | some c =>
    obtain ⟨j, _, hj, -⟩ := Node.buildChild_eq_some hchild
    rw [hbuilt.child?_of_mem (hmem c rfl), hj]
    rfl

theorem time_of_mem_places : ∀ p ∈ places, p.1 = ["time"] →
    ∀ s ∈ Registry.standard.schemas, s.name = p.2.1 →
      Node.target? s ["time"] "end_time" [] = some ⟨⟨["time"], "end_time"⟩, none, []⟩ := by
  decide

theorem not_mem_places_below_time : ∀ p ∈ places, p.1 ≠ ["time", "end_time"] := by decide

theorem locate?_endTime (hroot : Node.ofDescription .standard members = .ok root) :
    root.locate? [] [.field "time", .field "end_time"] =
      if (Json.supplied? members "time").isSome then
        some ⟨⟨["time"], "end_time"⟩, none, []⟩
      else none := by
  obtain ⟨schema, hschema, hbuild⟩ := Node.ofDescription_eq_ok hroot
  cases hschema
  obtain ⟨children, hchildren, rfl⟩ := Node.build_eq_ok hbuild
  have htimed : (Node.child? ⟨.root, none, members, children⟩ "time").isSome =
      (Json.supplied? members "time").isSome :=
    isSome_child? hroot (show Field.nested "time" "time" ∈ Schema.root.fields by decide) rfl
  rw [← htimed, Node.locate?]
  cases hc : Node.child? ⟨.root, none, members, children⟩ "time" with
  | none => rfl
  | some c =>
    have hat : Node.at? ⟨.root, none, members, children⟩ ["time"] = some c := by
      rw [Node.at?, hc]
      rfl
    have hknown := ((Node.built_ofDescription hroot).of_at? hat).mem_schemas
    have hleaf : c.child? "end_time" = none := by
      cases hd : c.child? "end_time" with
      | none => rfl
      | some d =>
        have hbelow : Node.at? ⟨.root, none, members, children⟩ ["time", "end_time"] = some d := by
          rw [Node.at?, hc, Option.bind_some, Node.at?, hd]
          rfl
        exact absurd rfl (not_mem_places_below_time _ (mem_places_of_at? hroot hbelow))
    simp only [Node.locate?, hleaf, Option.isSome_some, if_true]
    exact time_of_mem_places _ (mem_places_of_at? hroot hat) rfl c.schema hknown rfl

theorem follow_endTime (hroot : Node.ofDescription .standard members = .ok root)
    (read : FieldId → Resolution Value) (path : String) :
    Resolution.follow root read "ref:time.end_time" path =
      if (Json.supplied? members "time").isSome then
        read ⟨["time"], "end_time"⟩ >>= fun v => pure (some v)
      else pure none := by
  have hparse : Reference.parse? "ref:time.end_time" =
      some [.field "time", .field "end_time"] := by
    decide
  simp only [Resolution.follow, hparse, locate?_endTime hroot]
  cases (Json.supplied? members "time").isSome <;> rfl

end

section
variable {ctx : Context} {root root' : Node} {read : FieldId → Resolution Value} {path : String}

/-- Zeros and references that lead nowhere are as good as nothing. -/
theorem firstInput_of_zeros {ds : List Default}
    (h : ∀ d ∈ ds, d = .float .zero ∨ ∃ expression, d = .reference expression ∧
      Resolution.follow root read expression path = pure none) :
    Resolution.firstInput root read path (ds.map Source.ofDefault) = pure none ∨
      Resolution.firstInput root read path (ds.map Source.ofDefault) =
        pure (some (.value (.float .zero))) := by
  induction ds with
  | nil => exact .inl rfl
  | cons d ds ih =>
    cases h d List.mem_cons_self with
    | inl hzero =>
      rw [hzero]
      exact .inr rfl
    | inr hnowhere =>
      obtain ⟨expression, rfl, hfollow⟩ := hnowhere
      have hrest := ih fun d hd => h d (List.mem_cons_of_mem _ hd)
      have hskip : Resolution.firstInput root read path
          ((Default.reference expression :: ds).map Source.ofDefault) =
            Resolution.firstInput root read path (ds.map Source.ofDefault) := by
        simp only [List.map_cons, Source.ofDefault, Resolution.firstInput, hfollow, pure_bind,
          Bool.false_eq_true, if_false]
      rwa [hskip]

theorem complete_of_standsFor {timed strict : Bool} {kind : FieldKind} {ds : List Default}
    {d : Default} (hstands : standsFor timed kind ds d = true)
    (hfollow : Resolution.follow root read "ref:time.end_time" path =
      if timed then read ⟨["time"], "end_time"⟩ >>= fun v => pure (some v) else pure none)
    (id : FieldId) :
    (Resolution.firstInput root read path (ds.map Source.ofDefault) >>=
        Resolution.complete ctx id kind) =
      Resolution.firstInput root read path
          (Source.ofAuthor strict d.toJson :: ds.map Source.ofDefault) >>=
        Resolution.complete ctx id kind := by
  cases d with
  | int n => cases hstands
  | float x =>
    simp only [standsFor, decide_eq_true_eq] at hstands
    obtain ⟨rfl, rfl, hzeros⟩ := hstands
    have hinput : Resolution.firstInput root read path
        (Source.ofAuthor strict (Default.float .zero).toJson :: ds.map Source.ofDefault) =
          pure (some (.json (.float .zero))) := rfl
    have hnowhere : ∀ d ∈ ds, d = .float .zero ∨ ∃ expression, d = .reference expression ∧
        Resolution.follow root read expression path = pure none := by
      intro d hd
      cases hzeros d hd with
      | inl hzero => exact .inl hzero
      | inr h => exact .inr ⟨"ref:time.end_time", h.2, by rw [hfollow, h.1]; rfl⟩
    rw [hinput]
    cases firstInput_of_zeros hnowhere with
    | inl hnone => rw [hnone]; rfl
    | inr hzero => rw [hzero]; rfl
  | text s =>
    simp only [standsFor, decide_eq_true_eq] at hstands
    obtain ⟨rfl, rfl, rfl⟩ := hstands
    rfl
  | bool b =>
    simp only [standsFor, decide_eq_true_eq] at hstands
    obtain ⟨rfl, rfl, rfl⟩ := hstands
    rfl
  | reference expression =>
    simp only [standsFor, decide_eq_true_eq] at hstands
    obtain ⟨rfl, rfl, hhead⟩ := hstands
    obtain ⟨rest, rfl⟩ := List.head?_eq_some_iff.mp hhead
    have hauthor : Source.ofAuthor strict (Default.reference "ref:time.end_time").toJson =
        .reference "ref:time.end_time" strict := rfl
    simp only [hauthor, List.map_cons, Source.ofDefault, Resolution.firstInput, hfollow, if_true,
      bind_assoc, pure_bind]

end

end Layout

/-! ### Descriptions -/

def Edit.sayDefault (timed : Bool) : Edit := fun here schema slot? members members' =>
  ∃ f ∈ schema.fields, f.kind.isNested = false ∧ Json.supplied? members f.name = none ∧
    ∃ d, Layout.unsaid? timed here slot? f.name = some d ∧
      members' = Json.insertMember f.name d.toJson members

def Json.WrittenOut (members members' : Members) : Prop :=
  (Edit.sayDefault (supplied? members "time").isSome).Once .standard members members'

theorem Edit.sayDefault_keepsSections (registry : Registry) (timed : Bool) :
    (sayDefault timed).KeepsSections registry := by
  refine Node.keepsSections_of_value ?_
  intro here schema slot? members members' h
  obtain ⟨f, hf, hplain, -, d, -, rfl⟩ := h
  exact ⟨(Node.undeclared?_insertMember (Schema.field?_ne_none hf) _).symm, f, hf, hplain,
    sameBut_insertMember hf d.toJson members⟩

theorem Default.isNull_toJson (d : Default) : d.toJson.isNull = false := by
  cases d <;> rfl

/-- Fields are evaluated alike with and without what is left unsaid. -/
theorem Edit.alike_of_sayDefault {members : Json.Members} {root root' : Node}
    (hroot : Node.ofDescription .standard members = .ok root)
    (hedited : root.Edited (sayDefault (Json.supplied? members "time").isSome) [] root')
    (ctx : Context) : root.Alike ctx root' := by
  refine hedited.alike fun id n n' f hfield hplain hslot hchange read => ?_
  obtain ⟨hn, hf⟩ := Node.field?_eq_some.mp hfield
  have hmem := (Schema.mem_of_field? hf).1
  obtain ⟨g, hg, -, hnone, d, hd, hmembers⟩ := hchange
  by_cases hsame : f = g
  · subst hsame
    have hknown := ((Node.built_ofDescription hroot).of_at? hn).mem_schemas
    have hstands := Layout.standsFor_of_unsaid _ _ (Layout.mem_places_of_at? hroot hn) n.schema
      hknown rfl f hg d hd
    have hsaid : Json.supplied? n'.members f.name = some d.toJson := by
      rw [hmembers, Json.supplied?_insertMember_self d.isNull_toJson]
    rw [Resolution.evaluate_eq, Resolution.evaluate_eq, Layout.sources_eq_defaults,
      Layout.sources_eq_defaults, hnone, hsaid, ← hslot,
      ← Resolution.firstInput_eq_of_outline hedited.outline]
    exact Layout.complete_of_standsFor hstands (Layout.follow_endTime hroot read id.path) id
  · have hother := sameBut_insertMember hg d.toJson n.members f hmem hsame
    rw [← hmembers] at hother
    exact Resolution.evaluate_eq_of_sources hedited.outline
      (Node.sources_eq_of_supplied hslot hother _) read id

/-- Nothing changes when what is left unsaid is written out, in whichever fields and however many of
them. -/
theorem interchangeable_with_defaults {members members' : Json.Members}
    (h : Relation.ReflTransGen Json.WrittenOut members members') :
    Json.Interchangeable .standard members members' := by
  refine Json.Interchangeable.of_steps (fun members members' hstep => ?_) h
  exact hstep.interchangeable (Edit.sayDefault_keepsSections .standard _)
    fun root root' hroot _ hedited => Edit.alike_of_sayDefault hroot hedited

namespace Arriving

def time : Json.Members := [("end_time", .float ⟨0x4000000000000000⟩)]

def arrivals : Json.Members := [("distribution", .string "uniform")]

def spawn : Json.Members := [("time", .object arrivals)]

/-- Arrivals, of which neither the first nor the last moment is said. -/
def members : Json.Members := [("spawn", .object spawn), ("time", .object time)]

def arrivals' : Json.Members :=
  [("distribution", .string "uniform"), ("to", .string "ref:time.end_time")]

def spawn' : Json.Members := [("rate", .float .zero), ("time", .object arrivals')]

def members' : Json.Members :=
  [("spawn", .object spawn'), ("time", .object time), ("type", .string "flow")]

def tree : Node :=
  ⟨.root, none, members, [("time", ⟨.time, none, time, []⟩),
    ("spawn", ⟨.spawn, none, spawn,
      [("time", ⟨.distribution, some Schema.arrivals, arrivals, []⟩)]⟩)]⟩

def tree' : Node :=
  ⟨.root, none, members', [("time", ⟨.time, none, time, []⟩),
    ("spawn", ⟨.spawn, none, spawn',
      [("time", ⟨.distribution, some Schema.arrivals, arrivals', []⟩)]⟩)]⟩

def surroundings : Context := ⟨.standard, none, fun _ => .ok []⟩

end Arriving

open Arriving in
theorem interchangeable_with_defaults_arriving :
    Relation.ReflTransGen Json.WrittenOut members members' ∧
    Node.ofDescription .standard members = .ok tree ∧
    (Resolution.perform ((Operation.value ["spawn", "time"]).run surroundings tree) .empty).1 =
      .ok (.distribution ⟨.uniform, .zero, ⟨0x4000000000000000⟩⟩) := by
  have htype : Json.WrittenOut members
      [("spawn", .object spawn), ("time", .object time), ("type", .string "flow")] :=
    ⟨.root, rfl, .here ⟨Schema.root.fields.head (by decide), by decide, rfl, rfl, .text "flow", rfl,
      rfl⟩⟩
  have hrate : Json.WrittenOut
      [("spawn", .object spawn), ("time", .object time), ("type", .string "flow")]
      [("spawn", .object [("rate", .float .zero), ("time", .object arrivals)]),
        ("time", .object time), ("type", .string "flow")] :=
    ⟨.root, rfl, .nested (f := .nested "spawn" "spawn") (by decide) rfl
      Registry.schema?_spawn rfl
      (.here ⟨.float "rate" Coordinate.spawnRate.element, by decide, rfl, rfl, .float .zero, rfl,
        rfl⟩)⟩
  have hto : Json.WrittenOut
      [("spawn", .object [("rate", .float .zero), ("time", .object arrivals)]),
        ("time", .object time), ("type", .string "flow")] members' :=
    ⟨.root, rfl, .nested (f := .nested "spawn" "spawn") (by decide) rfl
      Registry.schema?_spawn rfl
      (.distribution (f := .silent "time" (.distribution Schema.arrivals)) (by decide) rfl
        Registry.schema?_distribution rfl
        (.here ⟨.parameter "to", by decide, rfl, rfl, .reference "ref:time.end_time", rfl, rfl⟩))⟩
  have hsteps := ((Relation.ReflTransGen.single htype).tail hrate).tail hto
  have hroot : Node.ofDescription .standard members = .ok tree := by cbv
  have hroot' : Node.ofDescription .standard members' = .ok tree' := by cbv
  have hsaid : (Resolution.perform
      ((Operation.value ["spawn", "time"]).run surroundings tree') .empty).1 =
        .ok (.distribution ⟨.uniform, .zero, ⟨0x4000000000000000⟩⟩) := by
    cbv
  have hanswers := (interchangeable_with_defaults hsteps).answers tree tree' hroot hroot'
    surroundings [] (.value ["spawn", "time"])
  exact ⟨hsteps, hroot, (congrArg Prod.fst hanswers).trans hsaid⟩

end CrowdScenario

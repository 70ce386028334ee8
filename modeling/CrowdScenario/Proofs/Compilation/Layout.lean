import CrowdScenario.Proofs.Encoding.Agreement
import CrowdScenario.Proofs.Encoding.Records

/-!
# The layout of compiled documents

What a document says that is compiled with the schemas of crowd simulations: which records it has, in
which order, and where their payloads come from. The plain encoder writes exactly these.
-/

namespace CrowdScenario

/-- What an author supplied at the end of a path through blocks. -/
def Json.suppliedAt? (members : Json.Members) : List String → Option Json
  | [] => none
  | [name] => Json.supplied? members name
  | name :: rest =>
    match Json.supplied? members name with
    | some (.object block) => suppliedAt? block rest
    | _ => none

theorem Json.suppliedAt?_of_block {members block : Json.Members} {name part : String}
    {rest : List String} (h : Json.supplied? members name = some (.object block)) :
    Json.suppliedAt? members (name :: part :: rest) = Json.suppliedAt? block (part :: rest) := by
  simp only [suppliedAt?, h]

theorem Json.suppliedAt?_of_none {members : Json.Members} {name part : String}
    {rest : List String} (h : Json.supplied? members name = none) :
    Json.suppliedAt? members (name :: part :: rest) = none := by
  simp only [suppliedAt?, h]

namespace Layout

section
variable (ctx : Context) (root : Node) (members : Json.Members)

def Scene (rs : List Record) : Prop :=
  ∃ file geometry scale,
    Resolves ctx root ["scene"] .scene "file" (.text file) ∧
      ctx.ingest (ctx.scenePath file) = .ok geometry ∧
      Resolves ctx root ["scene"] .scene "scale" (.float scale) ∧
      rs = geometry.map (fun g =>
        .geometry (if ctx.settings.clampCoordinates then g.clamped else g)) ++
          [.sceneFile file, .sceneScale scale]

def Time (rs : List Record) : Prop :=
  ∃ x t tick, Resolves ctx root ["time"] .time "end_time" (.float x) ∧ EndsAt x t ∧
    Resolves ctx root ["time"] .time "tick" (.float tick) ∧ rs = [.endTime t, .tick tick]

def SlotRecord (c : Coordinate) (here : Address) (rs : List Record) : Prop :=
  ∃ d, Distributes ctx root here .distribution d ∧ rs = [.distribution c d]

def Spawn (rs : List Record) : Prop :=
  ∃ rate arrivals, Resolves ctx root ["spawn"] .spawn "rate" (.float rate) ∧
    IfSupplied (Json.suppliedAt? members ["spawn", "time"])
      (SlotRecord ctx root .spawnTime ["spawn", "time"]) arrivals ∧
    rs = .spawnRate rate :: arrivals

def Forces (rs : List Record) : Prop :=
  ∃ target repulsion,
    IfSupplied (Json.suppliedAt? members ["forces", "target", "speed"])
      (SlotRecord ctx root .targetSpeed ["forces", "target", "speed"]) target ∧
    IfSupplied (Json.suppliedAt? members ["forces", "repulsion", "coeff"])
      (SlotRecord ctx root .repulsionCoefficient ["forces", "repulsion", "coeff"]) repulsion ∧
    rs = target ++ repulsion

def Fov (rs : List Record) : Prop :=
  ∃ forward backward,
    IfSupplied (Json.suppliedAt? members ["fov", "forward"])
      (SlotRecord ctx root .fovForward ["fov", "forward"]) forward ∧
    IfSupplied (Json.suppliedAt? members ["fov", "backward"])
      (SlotRecord ctx root .fovBackward ["fov", "backward"]) backward ∧
    rs = forward ++ backward

def Density (rs : List Record) : Prop :=
  ∃ enabled minimum maximum,
    Resolves ctx root ["density_map"] .densityMap "enabled" (.bool enabled) ∧
      Resolves ctx root ["density_map"] .densityMap "min_threshold" (.float minimum) ∧
      Resolves ctx root ["density_map"] .densityMap "max_threshold" (.float maximum) ∧
      rs = [.densityEnabled enabled, .densityMinimum minimum, .densityMaximum maximum]

/-- The records of a document, in order, with those of each block exactly if it is supplied. -/
def Records (rs : List Record) : Prop :=
  ∃ scene time spawn forces fov density,
    IfSupplied (Json.supplied? members "scene") (Scene ctx root) scene ∧
      IfSupplied (Json.supplied? members "time") (Time ctx root) time ∧
      IfSupplied (Json.supplied? members "spawn") (Spawn ctx root members) spawn ∧
      IfSupplied (Json.supplied? members "forces") (Forces ctx root members) forces ∧
      IfSupplied (Json.supplied? members "fov") (Fov ctx root members) fov ∧
      IfSupplied (Json.supplied? members "density_map") (Density ctx root) density ∧
      rs = scene ++ time ++ spawn ++ forces ++ fov ++ density

def slots : List (Coordinate × Address) :=
  [(.spawnTime, ["spawn", "time"]), (.targetSpeed, ["forces", "target", "speed"]),
    (.repulsionCoefficient, ["forces", "repulsion", "coeff"]), (.fovForward, ["fov", "forward"]),
    (.fovBackward, ["fov", "backward"])]

end

/-- No section has two scenes, or writes as a scene what is none. -/
theorem scenes_of_description {members : Json.Members} {root : Node}
    (hroot : Node.ofDescription .standard members = .ok root) :
    root.SingleScene ∧ root.ScenesApart := by
  have hbuilt := Node.built_ofDescription hroot
  exact ⟨hbuilt.singleScene (by decide), hbuilt.scenesApart (by decide)⟩

theorem of_nested (schema : Schema) {here : Address} {members : Json.Members}
    {name title : String} {c : Node} (hschema : Registry.standard.schema? title = some schema)
    (h : Node.buildChild .standard here members (.nested name title) = .ok (some c)) :
    ∃ block children, Json.supplied? members name = some (.object block) ∧
      Node.buildChildren .standard (here ++ [name]) block schema.fields = .ok children ∧
      c = ⟨schema, none, block, children⟩ := by
  obtain ⟨j, schema', hj, hcase⟩ := Node.buildChild_eq_some h
  rcases hcase with ⟨title', block, hkind, hschema', rfl, hbuild⟩ | ⟨slot, hkind, -⟩
  · cases hkind
    rw [hschema] at hschema'
    cases hschema'
    obtain ⟨children, hchildren, rfl⟩ := Node.build_eq_ok hbuild
    exact ⟨block, children, hj, hchildren, rfl⟩
  · cases hkind

theorem of_distribution {here : Address} {members : Json.Members} {f : Field} {slot : Slot}
    {c : Node} (hkind : f.kind = .distribution slot)
    (h : Node.buildChild .standard here members f = .ok (some c)) :
    ∃ block children, c = ⟨.distribution, some slot, block, children⟩ := by
  obtain ⟨j, schema', hj, hcase⟩ := Node.buildChild_eq_some h
  rw [hkind] at hcase
  rcases hcase with ⟨title', block, hkind', -⟩ | ⟨slot', hkind', hschema', hbuild⟩
  · cases hkind'
  · cases hkind'
    have hschema : Registry.standard.schema? Schema.distributionName = some .distribution := rfl
    rw [hschema] at hschema'
    cases hschema'
    rcases hbuild with ⟨block, -, hbuild⟩ | hfixed
    · obtain ⟨children, -, rfl⟩ := Node.build_eq_ok hbuild
      exact ⟨block, children, rfl⟩
    · exact ⟨_, [], Node.fixed_eq_ok hfixed⟩

section
variable {ctx : Context} {root : Node} {here : Address} {members : Json.Members}

theorem adds_plain {schema : Schema} {children : List (String × Node)} {kind : List Record → Prop}
    (hplain : ∀ f ∈ schema.fields, f.kind.isNested = false)
    (hbuild : Node.buildChildren .standard here members schema.fields = .ok children)
    (hfields : Adds (fun w => Plain.encodeFields ctx here schema schema.fields w
      (Plain.field ctx root [])) kind) :
    Adds (fun w => Plain.encodeNode ctx here ⟨schema, none, members, children⟩ w
      (Plain.field ctx root [])) kind := by
  cases Node.buildChildren_eq_nil hplain hbuild
  have hchildren : Adds (fun w => Plain.encodeChildren ctx here [] w (Plain.field ctx root []))
      (· = []) := by
    simp only [Plain.encodeChildren]
    exact Adds.nothing
  refine (adds_encodeNode hfields hchildren).imp fun new hnew => ?_
  obtain ⟨before, behind, hbefore, rfl, rfl⟩ := hnew
  rwa [List.append_nil]

theorem adds_scene (hscene : root.SingleScene) {c : Node} (hn : root.at? ["scene"] = some c)
    (h : Node.buildChild .standard [] members (.nested "scene" "scene") = .ok (some c)) :
    Adds (fun w => Plain.encodeNode ctx ["scene"] c w (Plain.field ctx root []))
      (Scene ctx root) := by
  obtain ⟨block, children, -, hbuild, rfl⟩ := of_nested .scene rfl h
  refine adds_plain (by decide) hbuild ?_
  have hfile := adds_sceneFile ctx hscene hn (.head _) rfl rfl rfl
  have hscale := adds_float ctx hscene hn (.tail _ (.head _)) rfl rfl rfl fun x => rfl
  have hfields := adds_fields_cons (by decide) hfile
    (adds_fields_cons (by decide) hscale adds_fields_nil)
  refine hfields.imp fun new hnew => ?_
  rw [both_nothing] at hnew
  obtain ⟨_, _, ⟨file, geometry, hf, hg, rfl⟩, ⟨scale, hs, rfl⟩, rfl⟩ := hnew
  exact ⟨file, geometry, scale, hf, hg, hs, List.append_assoc ..⟩

theorem adds_time (hscene : root.SingleScene) {c : Node} (hn : root.at? ["time"] = some c)
    (h : Node.buildChild .standard [] members (.nested "time" "time") = .ok (some c)) :
    Adds (fun w => Plain.encodeNode ctx ["time"] c w (Plain.field ctx root [])) (Time ctx root) := by
  obtain ⟨block, children, -, hbuild, rfl⟩ := of_nested .time rfl h
  refine adds_plain (by decide) hbuild ?_
  have hend := adds_seconds ctx hscene hn (.head _) rfl rfl rfl
  have htick := adds_float ctx hscene hn (.tail _ (.head _)) rfl rfl rfl fun x => rfl
  have hfields := adds_fields_cons (by decide) hend
    (adds_fields_cons (by decide) htick adds_fields_nil)
  refine hfields.imp fun new hnew => ?_
  rw [both_nothing] at hnew
  obtain ⟨_, _, ⟨x, t, hx, ht, rfl⟩, ⟨tick, hs, rfl⟩, rfl⟩ := hnew
  exact ⟨x, t, tick, hx, ht, hs, rfl⟩

theorem adds_density (hscene : root.SingleScene) {c : Node}
    (hn : root.at? ["density_map"] = some c)
    (h : Node.buildChild .standard [] members (.nested "density_map" "density_map") =
      .ok (some c)) :
    Adds (fun w => Plain.encodeNode ctx ["density_map"] c w (Plain.field ctx root []))
      (Density ctx root) := by
  obtain ⟨block, children, -, hbuild, rfl⟩ := of_nested .densityMap rfl h
  refine adds_plain (by decide) hbuild ?_
  have henabled := adds_flag ctx hscene hn (.head _) rfl rfl rfl fun b => rfl
  have hmin := adds_float ctx hscene hn (.tail _ (.head _)) rfl rfl rfl fun x => rfl
  have hmax := adds_float ctx hscene hn (.tail _ (.tail _ (.head _))) rfl rfl rfl
    fun x => rfl
  have hfields := adds_fields_cons (by decide) henabled (adds_fields_cons (by decide) hmin
    (adds_fields_cons (by decide) hmax adds_fields_nil))
  refine hfields.imp fun new hnew => ?_
  rw [both_nothing] at hnew
  obtain ⟨_, _, ⟨b, hb, rfl⟩, ⟨_, _, ⟨low, hlow, rfl⟩, ⟨high, hhigh, rfl⟩, rfl⟩, rfl⟩ := hnew
  exact ⟨b, low, high, hb, hlow, hhigh, rfl⟩

theorem adds_slot (ctx : Context) (hscene : root.SingleScene) {f : Field} {slot : Slot} {c : Node}
    (hkind : f.kind = .distribution slot) (hslot : slot.coordinate.holdsDistribution = true)
    (h : Node.buildChild .standard here members f = .ok (some c)) :
    Adds (fun w => Plain.encodeNode ctx (here ++ [f.name]) c w (Plain.field ctx root []))
      (SlotRecord ctx root slot.coordinate (here ++ [f.name])) := by
  obtain ⟨block, children, rfl⟩ := of_distribution hkind h
  have hadds : Adds (fun w => Plain.encodeDistribution (here ++ [f.name]) .distribution slot w
      (Plain.field ctx root [])) (SlotRecord ctx root slot.coordinate (here ++ [f.name])) :=
    adds_distribution ctx hscene hslot
  simpa [Plain.encodeNode] using hadds

def isSlot : FieldKind → Bool
  | .distribution slot => slot.coordinate.holdsDistribution
  | _ => false

def slotKind (ctx : Context) (root : Node) (here : Address) (f : Field) : List Record → Prop :=
  match f.kind with
  | .distribution slot => SlotRecord ctx root slot.coordinate (here ++ [f.name])
  | _ => (· = [])

theorem adds_slots (ctx : Context) (hscene : root.SingleScene) {fields : List Field}
    {children : List (String × Node)}
    (hslots : ∀ f ∈ fields, f.kind.isNested = true → isSlot f.kind = true)
    (hbuild : Node.buildChildren .standard here members fields = .ok children) :
    Adds (fun w => Plain.encodeChildren ctx here children w (Plain.field ctx root []))
      (Parts (slotKind ctx root here) members fields) := by
  refine adds_encodeChildren (fun f hf c _ h => ?_) hbuild
  have hslot := hslots f hf (Node.isNested_of_buildChild h)
  unfold isSlot at hslot
  split at hslot
  · next slot hkind =>
    have hadds := adds_slot ctx hscene hkind hslot h
    simpa [slotKind, hkind] using hadds
  · cases hslot

theorem adds_spawn (hscene : root.SingleScene) {c : Node} (hn : root.at? ["spawn"] = some c)
    (h : Node.buildChild .standard [] members (.nested "spawn" "spawn") = .ok (some c)) :
    Adds (fun w => Plain.encodeNode ctx ["spawn"] c w (Plain.field ctx root []))
      (Spawn ctx root members) := by
  obtain ⟨block, children, hblock, hbuild, rfl⟩ := of_nested .spawn rfl h
  have hrate := adds_float ctx hscene hn (.head _) rfl rfl rfl fun x => rfl
  have hsilent : ∀ f ∈ [Field.silent "time" (.distribution Schema.arrivals)],
      f.emission = .skip := by decide
  have hfields := adds_fields_cons (by decide) hrate (adds_fields_silent hsilent)
  have hchildren := adds_slots ctx hscene (by decide) hbuild
  refine (adds_encodeNode hfields hchildren).imp fun new hnew => ?_
  rw [both_nothing] at hnew
  obtain ⟨_, arrivals, ⟨rate, hrate, rfl⟩, hparts, rfl⟩ := hnew
  refine ⟨rate, arrivals, hrate, ?_, rfl⟩
  rw [Json.suppliedAt?_of_block hblock]
  simpa [Json.suppliedAt?, Parts, slotKind, Schema.spawn, Schema.arrivals, Field.float,
    Field.silent, FieldKind.isNested] using hparts

theorem ifSupplied_part {name part : String} {kind : List Record → Prop} {rs : List Record}
    (h : IfSupplied (Json.supplied? members name)
      (IfSupplied (Json.suppliedAt? members [name, part]) kind) rs) :
    IfSupplied (Json.suppliedAt? members [name, part]) kind rs := by
  cases hj : Json.supplied? members name with
  | some j =>
    rwa [hj, ifSupplied_some] at h
  | none =>
    rw [hj, ifSupplied_none] at h
    rwa [Json.suppliedAt?_of_none hj, ifSupplied_none]

theorem adds_force (hscene : root.SingleScene) {name title part : String} {force : Schema}
    {c : Coordinate} {n : Node} (hforce : Registry.standard.schema? title = some force)
    (hfields : force.fields = [.distribution part c]) (hc : c.holdsDistribution = true)
    (h : Node.buildChild .standard here members (.nested name title) = .ok (some n)) :
    Adds (fun w => Plain.encodeNode ctx (here ++ [name]) n w (Plain.field ctx root []))
      (IfSupplied (Json.suppliedAt? members [name, part])
        (SlotRecord ctx root c (here ++ [name] ++ [part]))) := by
  obtain ⟨block, children, hblock, hbuild, rfl⟩ := of_nested force hforce h
  rw [hfields] at hbuild
  have hsilent : ∀ f ∈ force.fields, f.emission = .skip := by
    simp [hfields, Field.distribution, Field.silent]
  have hslots : ∀ f ∈ [Field.distribution part c], f.kind.isNested = true → isSlot f.kind = true := by
    intro f hf _
    rw [List.mem_singleton.mp hf]
    exact hc
  have hchildren := adds_slots ctx hscene hslots hbuild
  refine (adds_encodeNode (adds_fields_silent hsilent) hchildren).imp fun new hnew => ?_
  have hpart : IfSupplied (Json.supplied? block part)
      (SlotRecord ctx root c (here ++ [name] ++ [part])) new := by
    simpa [Parts, slotKind, Field.distribution, Field.silent, FieldKind.isNested] using hnew
  rwa [Json.suppliedAt?_of_block hblock]

theorem adds_forces (hscene : root.SingleScene) {c : Node}
    (h : Node.buildChild .standard [] members (.nested "forces" "forces") = .ok (some c)) :
    Adds (fun w => Plain.encodeNode ctx ["forces"] c w (Plain.field ctx root []))
      (Forces ctx root members) := by
  obtain ⟨block, children, hblock, hbuild, rfl⟩ := of_nested .forces rfl h
  have hchildren : Adds (fun w => Plain.encodeChildren ctx ["forces"] children w
      (Plain.field ctx root [])) (Parts (fun f =>
        if f.name = "target" then
          IfSupplied (Json.suppliedAt? block ["target", "speed"])
            (SlotRecord ctx root .targetSpeed ["forces", "target", "speed"])
        else
          IfSupplied (Json.suppliedAt? block ["repulsion", "coeff"])
            (SlotRecord ctx root .repulsionCoefficient ["forces", "repulsion", "coeff"]))
        block Schema.forces.fields) := by
    refine adds_encodeChildren (fun f hf n _ hn => ?_) hbuild
    cases hf with
    | head => exact adds_force hscene rfl rfl rfl hn
    | tail _ hf =>
      cases List.mem_singleton.mp hf
      exact adds_force hscene rfl rfl rfl hn
  have hsilent : ∀ f ∈ Schema.forces.fields, f.emission = .skip := by decide
  refine (adds_encodeNode (adds_fields_silent hsilent) hchildren).imp fun new hnew => ?_
  rw [nothing_both] at hnew
  obtain ⟨target, repulsion, htarget, hrepulsion, rfl⟩ := hnew
  rw [Parts, Parts, both_nothing] at hrepulsion
  refine ⟨target, repulsion, ?_, ?_, rfl⟩
  · rw [Json.suppliedAt?_of_block hblock]
    exact ifSupplied_part htarget
  · rw [Json.suppliedAt?_of_block hblock]
    exact ifSupplied_part hrepulsion

theorem adds_fov (hscene : root.SingleScene) {c : Node}
    (h : Node.buildChild .standard [] members (.nested "fov" "fov") = .ok (some c)) :
    Adds (fun w => Plain.encodeNode ctx ["fov"] c w (Plain.field ctx root []))
      (Fov ctx root members) := by
  obtain ⟨block, children, hblock, hbuild, rfl⟩ := of_nested .fov rfl h
  have hchildren := adds_slots ctx hscene (by decide) hbuild
  have hsilent : ∀ f ∈ Schema.fov.fields, f.emission = .skip := by decide
  refine (adds_encodeNode (adds_fields_silent hsilent) hchildren).imp fun new hnew => ?_
  rw [nothing_both] at hnew
  obtain ⟨forward, backward, hforward, hbackward, rfl⟩ := hnew
  rw [Parts, Parts, both_nothing] at hbackward
  refine ⟨forward, backward, ?_, ?_, rfl⟩
  · rw [Json.suppliedAt?_of_block hblock]
    exact hforward
  · rw [Json.suppliedAt?_of_block hblock]
    exact hbackward

/-! ### The document as a whole -/

theorem holds_opening (hscene : root.SingleScene) (hroot : root.schema = .root) {w : Writer}
    (h : Plain.encodeFields ctx [] .root Schema.root.fields .empty (Plain.field ctx root []) =
      .ok w) :
    ∃ s : Simulation, w.Holds s [] ∧
      Resolves ctx root [] .root "type" (.choice s.name s.code) := by
  obtain ⟨w1, hfield, hskip⟩ := Inquiry.bind_eq_ok.mp h
  have heq : w1 = w := by
    cases hskip
    rfl
  rw [← hroot] at hfield
  obtain ⟨e, input?, hresolves, hfinish, hwrite⟩ :=
    encodeField_eq_ok hscene (n := root) rfl (by rw [hroot]; exact .head _) rfl hfield
  obtain ⟨v, hv, hvalue⟩ := Plain.finish_choice hfinish
  obtain ⟨s, -, rfl⟩ := List.mem_map.mp hv
  rw [hvalue, hroot] at hresolves
  refine ⟨s, ?_, hresolves⟩
  simp only [Plain.writeValue, Plain.require, hvalue, Value.code?] at hwrite
  have hopen : w1 = Writer.empty.simulation s := by
    cases hwrite
    rfl
  rw [← heq, hopen]
  exact Writing.holds_simulation s

def groupKind (ctx : Context) (root : Node) (members : Json.Members) (f : Field) :
    List Record → Prop :=
  match f.name with
  | "scene" => Scene ctx root
  | "time" => Time ctx root
  | "spawn" => Spawn ctx root members
  | "forces" => Forces ctx root members
  | "fov" => Fov ctx root members
  | _ => Density ctx root

theorem adds_group (hscene : root.SingleScene) {f : Field} (hf : f ∈ Schema.root.fields) {c : Node}
    (hn : root.at? [f.name] = some c)
    (h : Node.buildChild .standard [] members f = .ok (some c)) :
    Adds (fun w => Plain.encodeNode ctx [f.name] c w (Plain.field ctx root []))
      (groupKind ctx root members f) := by
  simp only [Schema.root, List.mem_cons, List.not_mem_nil, or_false] at hf
  rcases hf with rfl | rfl | rfl | rfl | rfl | rfl | rfl
  · cases Node.isNested_of_buildChild h
  · exact adds_scene hscene hn h
  · exact adds_time hscene hn h
  · exact adds_spawn hscene hn h
  · exact adds_forces hscene h
  · exact adds_fov hscene h
  · exact adds_density hscene hn h

theorem holds_records (hscene : root.SingleScene)
    (hroot : Node.ofDescription .standard members = .ok root) {w : Writer}
    (h : Plain.encodeNode ctx [] root .empty (Plain.field ctx root []) = .ok w) :
    ∃ s rs, w.Holds s rs ∧ Resolves ctx root [] .root "type" (.choice s.name s.code) ∧
      Records ctx root members rs := by
  have hbuilt := Node.built_ofDescription hroot
  obtain ⟨schema, hschema, hbuild⟩ := Node.ofDescription_eq_ok hroot
  cases hschema
  obtain ⟨children, hchildren, hn⟩ := Node.build_eq_ok hbuild
  have hsplit : Plain.encodeNode ctx [] root .empty =
      Plain.encodeFields ctx [] .root Schema.root.fields .empty >>=
        Plain.encodeChildren ctx [] children := by
    rw [hn, Plain.encodeNode]
  rw [hsplit] at h
  obtain ⟨w1, hopening, hrest⟩ := Inquiry.bind_eq_ok.mp h
  obtain ⟨s, hw1, htype⟩ := holds_opening hscene (by rw [hn]) hopening
  have hgroups : Adds (fun w => Plain.encodeChildren ctx [] children w (Plain.field ctx root []))
      (Parts (groupKind ctx root members) members Schema.root.fields) := by
    refine adds_encodeChildren (fun f hf c hmem hc => ?_) hchildren
    have hat : root.at? ([] ++ [f.name]) = some c := hbuilt.at?_child rfl (by rwa [hn])
    exact adds_group hscene hf hat hc
  obtain ⟨rs, hw, hrs⟩ := hgroups w1 w s [] hw1 hrest
  refine ⟨s, rs, hw, htype, ?_⟩
  rw [Schema.root, parts_cons_plain rfl] at hrs
  obtain ⟨scene, _, hscenes, ⟨time, _, htimes, ⟨spawn, _, hspawns, ⟨forces, _, hforces,
    ⟨fov, _, hfovs, ⟨density, _, hdensities, rfl, rfl⟩, rfl⟩, rfl⟩, rfl⟩, rfl⟩, rfl⟩ := hrs
  refine ⟨scene, time, spawn, forces, fov, density, hscenes, htimes, hspawns, hforces, hfovs,
    hdensities, ?_⟩
  simp

end

end Layout
end CrowdScenario

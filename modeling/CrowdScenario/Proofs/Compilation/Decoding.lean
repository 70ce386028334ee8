import CrowdScenario.Proofs.Compilation.Layout
import Mathlib

/-!
# Decoding compiled documents

The decoder reads from a compiled document what the description asks for: the records of its layout,
and among them a distribution in every slot that is supplied and in no other.
-/

namespace CrowdScenario
namespace Layout

section
variable (ctx : Context) (root : Node) (members : Json.Members)

/-- Records whose distributions are those that an author supplied in some slots. -/
structure Carries (slots : List (Coordinate × Address)) (rs : List Record) : Prop where
  listed : ∀ c d, .distribution c d ∈ rs → ∃ here, (c, here) ∈ slots ∧
    Json.suppliedAt? members here ≠ none ∧ Distributes ctx root here .distribution d
  present : ∀ p ∈ slots, Json.suppliedAt? members p.2 ≠ none → ∃ d, .distribution p.1 d ∈ rs

def Found (here : Address) (found? : Option Distribution) : Prop :=
  match Json.suppliedAt? members here with
  | none => found? = none
  | some _ => ∃ d, Distributes ctx root here .distribution d ∧ found? = some d

end

theorem mem_of_distribution? {s : Simulation} {rs : List Record} {c : Coordinate}
    {d : Distribution} (h : Document.distribution? ⟨s, rs⟩ c = some d) :
    .distribution c d ∈ rs := by
  obtain ⟨r, hr, heq⟩ := List.exists_of_findSome?_eq_some h
  split at heq
  · split at heq
    · next hc =>
      cases heq
      rwa [← hc]
    · cases heq
  · cases heq

theorem not_mem_of_distribution? {s : Simulation} {rs : List Record} {c : Coordinate}
    (h : Document.distribution? ⟨s, rs⟩ c = none) (d : Distribution) :
    .distribution c d ∉ rs := by
  intro hmem
  have hnone := List.findSome?_eq_none_iff.mp h _ hmem
  simp at hnone

namespace Carries

variable {ctx : Context} {root : Node} {members : Json.Members}
  {slots slots' : List (Coordinate × Address)} {rs rs' : List Record}

theorem silent (h : ∀ r ∈ rs, ∀ c d, r ≠ .distribution c d) : Carries ctx root members [] rs where
  listed c d hmem := absurd rfl (h _ hmem c d)
  present := nofun

theorem append (h : Carries ctx root members slots rs) (h' : Carries ctx root members slots' rs') :
    Carries ctx root members (slots ++ slots') (rs ++ rs') where
  listed c d hmem := by
    cases List.mem_append.mp hmem with
    | inl hmem =>
      obtain ⟨here, hslot, hrest⟩ := h.listed c d hmem
      exact ⟨here, List.mem_append_left _ hslot, hrest⟩
    | inr hmem =>
      obtain ⟨here, hslot, hrest⟩ := h'.listed c d hmem
      exact ⟨here, List.mem_append_right _ hslot, hrest⟩
  present p hp hsupplied := by
    cases List.mem_append.mp hp with
    | inl hp =>
      obtain ⟨d, hd⟩ := h.present p hp hsupplied
      exact ⟨d, List.mem_append_left _ hd⟩
    | inr hp =>
      obtain ⟨d, hd⟩ := h'.present p hp hsupplied
      exact ⟨d, List.mem_append_right _ hd⟩

theorem slot {c : Coordinate} {here : Address}
    (h : IfSupplied (Json.suppliedAt? members here) (SlotRecord ctx root c here) rs) :
    Carries ctx root members [(c, here)] rs := by
  cases hj : Json.suppliedAt? members here with
  | none =>
    rw [hj, ifSupplied_none] at h
    cases h
    refine ⟨nofun, fun p hp hsupplied => ?_⟩
    rw [List.mem_singleton.mp hp] at hsupplied
    exact absurd hj hsupplied
  | some j =>
    rw [hj, ifSupplied_some] at h
    obtain ⟨d, hd, rfl⟩ := h
    refine ⟨fun c' d' hmem => ?_, fun p hp _ => ?_⟩
    · cases List.mem_singleton.mp hmem
      exact ⟨here, List.mem_singleton_self _, by simp [hj], hd⟩
    · rw [List.mem_singleton.mp hp]
      exact ⟨d, List.mem_singleton_self _⟩

theorem group {name : String} {kind : List Record → Prop}
    (h : IfSupplied (Json.supplied? members name) kind rs)
    (hbelow : ∀ p ∈ slots, ∃ part rest, p.2 = name :: part :: rest)
    (hkind : kind rs → Carries ctx root members slots rs) : Carries ctx root members slots rs := by
  cases hj : Json.supplied? members name with
  | none =>
    rw [hj, ifSupplied_none] at h
    cases h
    refine ⟨nofun, fun p hp hsupplied => ?_⟩
    obtain ⟨part, rest, hp2⟩ := hbelow p hp
    rw [hp2, Json.suppliedAt?_of_none hj] at hsupplied
    exact absurd rfl hsupplied
  | some j =>
    rw [hj, ifSupplied_some] at h
    exact hkind h

theorem found {s : Simulation} (h : Carries ctx root members slots rs)
    (hkeys : ∀ p ∈ slots, ∀ q ∈ slots, p.1 = q.1 → p = q) {p : Coordinate × Address}
    (hp : p ∈ slots) : Found ctx root members p.2 (Document.distribution? ⟨s, rs⟩ p.1) := by
  have hlisted : ∀ d, .distribution p.1 d ∈ rs →
      Json.suppliedAt? members p.2 ≠ none ∧ Distributes ctx root p.2 .distribution d := by
    intro d hd
    obtain ⟨here, hhere, hsupplied, hdistributes⟩ := h.listed p.1 d hd
    have heq : here = p.2 := congrArg Prod.snd (hkeys _ hhere p hp rfl)
    rw [heq] at hsupplied hdistributes
    exact ⟨hsupplied, hdistributes⟩
  unfold Found
  cases hj : Json.suppliedAt? members p.2 with
  | none =>
    cases hfound : Document.distribution? ⟨s, rs⟩ p.1 with
    | none => rfl
    | some d => exact absurd hj (hlisted d (mem_of_distribution? hfound)).1
  | some j =>
    obtain ⟨d, hd⟩ := h.present p hp (by simp [hj])
    cases hfound : Document.distribution? ⟨s, rs⟩ p.1 with
    | none => exact absurd hd (not_mem_of_distribution? hfound d)
    | some d' => exact ⟨d', (hlisted d' (mem_of_distribution? hfound)).2, rfl⟩

theorem not_found {s : Simulation} (h : Carries ctx root members slots rs) {c : Coordinate}
    (hc : c ∉ slots.map Prod.fst) : Document.distribution? ⟨s, rs⟩ c = none := by
  cases hfound : Document.distribution? ⟨s, rs⟩ c with
  | none => rfl
  | some d =>
    obtain ⟨here, hslot, -⟩ := h.listed c d (mem_of_distribution? hfound)
    exact absurd (List.mem_map_of_mem (f := Prod.fst) hslot) hc

end Carries

theorem Records.carries {ctx : Context} {root : Node} {members : Json.Members} {rs : List Record}
    (h : Records ctx root members rs) : Carries ctx root members slots rs := by
  obtain ⟨scene, time, spawn, forces, fov, density, hscene, htime, hspawn, hforces, hfov, hdensity,
    rfl⟩ := h
  have hscenes : Carries ctx root members [] scene := by
    refine .group hscene nofun ?_
    intro hkind
    obtain ⟨file, geometry, scale, -, -, -, rfl⟩ := hkind
    refine .silent ?_
    intro r hr c d heq
    rw [heq] at hr
    simp at hr
  have htimes : Carries ctx root members [] time := by
    refine .group htime nofun ?_
    intro hkind
    obtain ⟨x, t, tick, -, -, -, rfl⟩ := hkind
    exact .silent (by simp)
  have hspawns : Carries ctx root members [(.spawnTime, ["spawn", "time"])] spawn := by
    refine .group hspawn (by simp) ?_
    intro hkind
    obtain ⟨rate, arrivals, -, harrivals, rfl⟩ := hkind
    have hrate : Carries ctx root members [] [.spawnRate rate] := .silent (by simp)
    exact hrate.append (.slot harrivals)
  have hforce : Carries ctx root members [(.targetSpeed, ["forces", "target", "speed"]),
      (.repulsionCoefficient, ["forces", "repulsion", "coeff"])] forces := by
    refine .group hforces (by simp) ?_
    intro hkind
    obtain ⟨target, repulsion, htarget, hrepulsion, rfl⟩ := hkind
    exact (Carries.slot htarget).append (.slot hrepulsion)
  have hfovs : Carries ctx root members [(.fovForward, ["fov", "forward"]),
      (.fovBackward, ["fov", "backward"])] fov := by
    refine .group hfov (by simp) ?_
    intro hkind
    obtain ⟨forward, backward, hforward, hbackward, rfl⟩ := hkind
    exact (Carries.slot hforward).append (.slot hbackward)
  have hdensities : Carries ctx root members [] density := by
    refine .group hdensity nofun ?_
    intro hkind
    obtain ⟨enabled, low, high, -, -, -, rfl⟩ := hkind
    exact .silent (by simp)
  exact ((((hscenes.append htimes).append hspawns).append hforce).append hfovs).append hdensities

end Layout

open Layout

theorem compile_eq_ok {settings : Settings} {registry : Registry} {ingest : Ingestor}
    {d : Description} {c : Compiled} (h : compile settings registry ingest d = .ok c) :
    ∃ root, Node.ofDescription registry d.members = .ok root ∧
      (Resolution.perform (Compilation.encode ⟨settings, d.directory?, ingest⟩ root) .empty).1 =
        .ok c := by
  unfold compile Compilation.run at h
  cases hroot : Node.ofDescription registry d.members with
  | error e =>
    rw [hroot] at h
    cases h
  | ok root =>
    rw [hroot] at h
    exact ⟨root, rfl, h⟩

theorem agrees_encode (ctx : Context) {root : Node} {registry : Registry}
    (hbuilt : root.Built registry) (hscene : root.SingleScene) (hapart : root.ScenesApart) :
    Agrees ctx root [] (Compilation.encode ctx root)
      (Plain.encodeNode ctx [] root .empty >>= fun w => pure (.ofWriter w)) := by
  have hfollows : Encoding.Follows ctx root (Encoding.encodeNode ctx root [] root)
      (Plain.encodeNode ctx [] root) :=
    Encoding.follows_encodeNode hscene hapart (fun here n hn p hp => hbuilt.at?_child hn hp) []
      root rfl
  have hbind := (hfollows .empty).bind fun r => Agrees.pure (Compiled.ofWriter r.2)
  simpa [Compilation.encode] using hbind

/-- The records of a compiled document are read back, as many as were counted. -/
theorem document_of_compile {settings : Settings} {ingest : Ingestor} {d : Description}
    {c : Compiled} (h : compile settings .standard ingest d = .ok c) :
    ∃ root doc, Node.ofDescription .standard d.members = .ok root ∧
      Document.decode c.bytes = .ok doc ∧ doc.records.length = c.recordCount ∧
      Resolves ⟨settings, d.directory?, ingest⟩ root [] .root "type"
        (.choice doc.simulation.name doc.simulation.code) ∧
      Records ⟨settings, d.directory?, ingest⟩ root d.members doc.records := by
  obtain ⟨root, hroot, hencode⟩ := compile_eq_ok h
  have hbuilt := Node.built_ofDescription hroot
  obtain ⟨hscene, hapart⟩ := scenes_of_description hroot
  rw [(agrees_encode _ hbuilt hscene hapart).fresh] at hencode
  obtain ⟨w, hw, hc⟩ := Inquiry.bind_eq_ok.mp hencode
  cases hc
  obtain ⟨s, rs, hholds, htype, hrecords⟩ := holds_records hscene hroot hw
  exact ⟨root, ⟨s, rs⟩, hroot, Writing.holds_decode hholds, hholds.2.symm, htype, hrecords⟩

/-- Whatever is compiled with the schemas of crowd simulations is decoded again: the document has the
kind of simulation and the records that the description asks for, and a distribution exactly in the
slots that are supplied. -/
theorem decode_compile {settings : Settings} {ingest : Ingestor} {d : Description} {c : Compiled}
    (h : compile settings .standard ingest d = .ok c) :
    ∃ root doc, Node.ofDescription .standard d.members = .ok root ∧
      Document.decode c.bytes = .ok doc ∧ doc.records.length = c.recordCount ∧
      Resolves ⟨settings, d.directory?, ingest⟩ root [] .root "type"
        (.choice doc.simulation.name doc.simulation.code) ∧
      Records ⟨settings, d.directory?, ingest⟩ root d.members doc.records ∧
      (∀ p ∈ slots, Found ⟨settings, d.directory?, ingest⟩ root d.members p.2
        (doc.distribution? p.1)) ∧
      ∀ k, k ∉ slots.map Prod.fst → doc.distribution? k = none := by
  obtain ⟨root, doc, hroot, hdecode, hcount, htype, hrecords⟩ := document_of_compile h
  have hcarries := hrecords.carries
  refine ⟨root, doc, hroot, hdecode, hcount, htype, hrecords, ?_, ?_⟩
  · intro p hp
    exact hcarries.found (by decide) hp
  · intro k hk
    exact hcarries.not_found hk

namespace Forward

def description : Description where
  members := [("type", .string "escape"), ("scene", .null),
    ("fov", .object [("forward", .object [("distribution", .string "normal")])])]
  directory? := none

def compiled : Compiled where
  bytes := [2, 5, 0, 1, 2, 0, 0, 0, 0, 0, 0, 0, 0, 0, 0, 0, 0, 0, 0, 0, 0]
  recordCount := 1

end Forward

open Forward in
theorem decode_compile_forward :
    compile .standard .standard (fun _ => .ok []) description = .ok compiled ∧
      ∃ doc, Document.decode compiled.bytes = .ok doc ∧ doc.records.length = 1 ∧
        (∃ d, doc.distribution? .fovForward = some d) ∧ doc.distribution? .fovBackward = none := by
  have hcompile : compile .standard .standard (fun _ => .ok []) description = .ok compiled := by
    cbv
  obtain ⟨root, doc, -, hdecode, hcount, -, -, hfound, -⟩ := decode_compile hcompile
  obtain ⟨d, -, hd⟩ := hfound (.fovForward, ["fov", "forward"]) (by decide)
  have hbackward := hfound (.fovBackward, ["fov", "backward"]) (by decide)
  exact ⟨hcompile, doc, hdecode, hcount, ⟨d, hd⟩, hbackward⟩

end CrowdScenario

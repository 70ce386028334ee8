import CrowdScenario.Proofs.Compilation.Decoding
import CrowdScenario.Proofs.Wire.Sequence

/-!
# Clamped geometry

Clamping brings every member of a geometry tuple to the nearest number that fits, so that a tuple of
the right length is always written. The place of a target and the mark of the last one are one member
and are clamped together: a number below all places loses the mark, and a number above them gains it
(`decode_clamped_target`).
-/

namespace CrowdScenario

namespace MemberWidth

theorem toInt_clamp (width : MemberWidth) (v : Int64) :
    (width.clamp v).toInt = Max.max 0 (min v.toInt width.max) := by
  have hmax : 0 ≤ width.max ∧ width.max ≤ 65535 := by
    cases width <;> decide
  unfold clamp
  split
  · next hneg =>
    show (0 : Int) = _
    omega
  · split
    · next hnonneg hbig =>
      rw [Int64.toInt_ofInt_of_le (by omega) (by omega)]
      omega
    · omega

theorem holds_clamp (width : MemberWidth) (v : Int64) : width.holds (width.clamp v) = true := by
  have hmax : 0 ≤ width.max := by
    cases width <;> decide
  rw [holds_iff, toInt_clamp]
  omega

end MemberWidth

theorem firstMisfit?_clamped (k : Nat) (ws : List MemberWidth) (vs : List Int64) :
    firstMisfit? k ws (List.zipWith MemberWidth.clamp ws vs) = none := by
  induction ws generalizing k vs with
  | nil => exact firstMisfit?_nil k _
  | cons width ws ih =>
    cases vs with
    | nil =>
      rw [List.zipWith_nil_right, firstMisfit?]
      intro width ws v vs _ hvs
      cases hvs
    | cons v vs =>
      rw [List.zipWith_cons_cons, firstMisfit?, if_pos (width.holds_clamp v)]
      exact ih (k + 1) vs

theorem Writing.outcome_clamped {g : Geometry} (hlen : g.members.length = g.tag.layout.length)
    (w : Writer) : outcome (.geometry g.clamped) w = .ok () := by
  have hclamped : g.clamped.members.length = g.clamped.tag.layout.length := by
    simp [Geometry.clamped, hlen]
  have hfits := firstMisfit?_clamped 0 g.tag.layout g.members
  rw [outcome_geometry_ok]
  exact ⟨hclamped, firstMisfit?_eq_none.mp hfits⟩

def Doubles (number : Int64) : Prop :=
  -9223372036854775808 ≤ 2 * number.toInt ∧ 2 * number.toInt ≤ 9223372036854775807

instance (number : Int64) : Decidable (Doubles number) :=
  inferInstanceAs (Decidable (_ ∧ _))

/-- The place in the order of targets nearest to a number. -/
def nearestPlace (number : Int64) : Nat := (max 0 (min number.toInt 127)).toNat

/-- What clamping makes of the mark of the last target. -/
def clampedMark (number : Int64) (last : Bool) : Bool :=
  if number.toInt < 0 then false else if 127 < number.toInt then true else last

theorem toInt_packSequence_of_doubles {number : Int64} (h : Doubles number) (last : Bool) :
    (Geometry.packSequence number last).toInt = 2 * number.toInt + if last then 1 else 0 := by
  obtain ⟨hlow, hhigh⟩ := h
  rw [Geometry.toInt_packSequence, Int.bmod]
  cases last with
  | true =>
    simp only [if_true]
    omega
  | false =>
    simp only [Bool.false_eq_true, if_false]
    omega

theorem toInt_clamp_packSequence {number : Int64} (h : Doubles number) (last : Bool) :
    (MemberWidth.one.clamp (Geometry.packSequence number last)).toInt =
      2 * nearestPlace number + if clampedMark number last then 1 else 0 := by
  have hmax : MemberWidth.one.max = 255 := rfl
  have hbit : (0 : Int) ≤ (if last then 1 else 0) ∧ (if last then 1 else 0 : Int) ≤ 1 := by
    cases last <;> decide
  rw [MemberWidth.toInt_clamp, toInt_packSequence_of_doubles h, hmax, nearestPlace, clampedMark]
  by_cases hneg : number.toInt < 0
  · rw [if_pos hneg, if_neg Bool.false_ne_true]
    omega
  · by_cases hbig : 127 < number.toInt
    · rw [if_neg hneg, if_pos hbig, if_pos rfl]
      omega
    · rw [if_neg hneg, if_neg hbig]
      omega

theorem targetSequence?_clamped {number : Int64} (h : Doubles number)
    (x0 y0 x1 y1 id : Int64) (last : Bool) :
    (Geometry.targetArea x0 y0 x1 y1 id number last).clamped.targetSequence? =
      some (nearestPlace number, clampedMark number last) := by
  have hpacked := toInt_clamp_packSequence h last
  have hplace : nearestPlace number ≤ 127 := by
    rw [nearestPlace]
    omega
  show some (((MemberWidth.one.clamp (Geometry.packSequence number last)).toInt % 256).toNat / 2,
    decide (((MemberWidth.one.clamp (Geometry.packSequence number last)).toInt % 256).toNat % 2 = 1))
      = _
  rw [hpacked]
  cases clampedMark number last with
  | true =>
    simp only [if_true, Option.some.injEq, Prod.mk.injEq, decide_eq_true_eq]
    omega
  | false =>
    simp only [Bool.false_eq_true, if_false, Option.some.injEq, Prod.mk.injEq,
      decide_eq_false_iff_not]
    omega

namespace Layout

section
variable {ctx : Context} {root : Node} {members : Json.Members}

def SceneGeometry (ctx : Context) (root : Node) (members : Json.Members)
    (geometry : List Geometry) : Prop :=
  match Json.supplied? members "scene" with
  | none => geometry = []
  | some _ => ∃ file, Resolves ctx root ["scene"] .scene "file" (.text file) ∧
      ctx.ingest (ctx.scenePath file) = .ok geometry

theorem geometry_append (s : Simulation) (rs rs' : List Record) :
    Document.geometry ⟨s, rs ++ rs'⟩ = Document.geometry ⟨s, rs⟩ ++ Document.geometry ⟨s, rs'⟩ :=
  List.filterMap_append

theorem geometry_eq_nil {s : Simulation} {rs : List Record} (h : ∀ r ∈ rs, ∀ g, r ≠ .geometry g) :
    Document.geometry ⟨s, rs⟩ = [] := by
  refine List.filterMap_eq_nil_iff.mpr fun r hr => ?_
  cases r with
  | geometry g => exact absurd rfl (h _ hr g)
  | _ => rfl

theorem geometry_map (s : Simulation) (gs : List Geometry) :
    Document.geometry ⟨s, gs.map .geometry⟩ = gs := by
  induction gs with
  | nil => rfl
  | cons g gs ih => exact congrArg (g :: ·) ih

theorem ifSupplied_silent {supplied? : Option Json} {kind : List Record → Prop} {rs : List Record}
    (h : IfSupplied supplied? kind rs)
    (hkind : kind rs → ∀ r ∈ rs, ∀ g, r ≠ .geometry g) : ∀ r ∈ rs, ∀ g, r ≠ .geometry g := by
  cases supplied? with
  | none =>
    cases h
    exact nofun
  | some j => exact hkind h

theorem slot_silent {c : Coordinate} {here : Address} {rs : List Record}
    (h : IfSupplied (Json.suppliedAt? members here) (SlotRecord ctx root c here) rs) :
    ∀ r ∈ rs, ∀ g, r ≠ .geometry g := by
  refine ifSupplied_silent h ?_
  rintro ⟨d, -, rfl⟩
  simp

theorem Scene.geometry {rs : List Record} (h : Scene ctx root rs) (s : Simulation) :
    ∃ file geometry, Resolves ctx root ["scene"] .scene "file" (.text file) ∧
      ctx.ingest (ctx.scenePath file) = .ok geometry ∧
      Document.geometry ⟨s, rs⟩ =
        geometry.map fun g => if ctx.settings.clampCoordinates then g.clamped else g := by
  obtain ⟨file, geometry, scale, hfile, hingest, -, rfl⟩ := h
  have hmap : geometry.map (fun g =>
      Record.geometry (if ctx.settings.clampCoordinates then g.clamped else g)) =
        (geometry.map fun g => if ctx.settings.clampCoordinates then g.clamped else g).map
          Record.geometry := by
    simp
  refine ⟨file, geometry, hfile, hingest, ?_⟩
  rw [hmap, geometry_append, geometry_map]
  exact List.append_nil _

theorem Records.geometry {rs : List Record} (h : Records ctx root members rs) (s : Simulation) :
    ∃ geometry, SceneGeometry ctx root members geometry ∧
      Document.geometry ⟨s, rs⟩ =
        geometry.map fun g => if ctx.settings.clampCoordinates then g.clamped else g := by
  obtain ⟨scene, time, spawn, forces, fov, density, hscene, htime, hspawn, hforces, hfov, hdensity,
    rfl⟩ := h
  have htimes : ∀ r ∈ time, ∀ g, r ≠ .geometry g := by
    refine ifSupplied_silent htime ?_
    rintro ⟨x, t, tick, -, -, -, rfl⟩
    simp
  have hspawns : ∀ r ∈ spawn, ∀ g, r ≠ .geometry g := by
    refine ifSupplied_silent hspawn ?_
    rintro ⟨rate, arrivals, -, harrivals, rfl⟩
    exact List.forall_mem_cons.mpr ⟨nofun, slot_silent harrivals⟩
  have hforce : ∀ r ∈ forces, ∀ g, r ≠ .geometry g := by
    refine ifSupplied_silent hforces ?_
    rintro ⟨target, repulsion, htarget, hrepulsion, rfl⟩
    exact List.forall_mem_append.mpr ⟨slot_silent htarget, slot_silent hrepulsion⟩
  have hfovs : ∀ r ∈ fov, ∀ g, r ≠ .geometry g := by
    refine ifSupplied_silent hfov ?_
    rintro ⟨forward, backward, hforward, hbackward, rfl⟩
    exact List.forall_mem_append.mpr ⟨slot_silent hforward, slot_silent hbackward⟩
  have hdensities : ∀ r ∈ density, ∀ g, r ≠ .geometry g := by
    refine ifSupplied_silent hdensity ?_
    rintro ⟨enabled, low, high, -, -, -, rfl⟩
    simp
  simp only [geometry_append, geometry_eq_nil htimes, geometry_eq_nil hspawns,
    geometry_eq_nil hforce, geometry_eq_nil hfovs, geometry_eq_nil hdensities, List.append_nil]
  unfold SceneGeometry
  cases hj : Json.supplied? members "scene" with
  | none =>
    rw [hj, ifSupplied_none] at hscene
    cases hscene
    exact ⟨[], rfl, rfl⟩
  | some j =>
    rw [hj, ifSupplied_some] at hscene
    obtain ⟨file, geometry, hfile, hingest, hgeometry⟩ := hscene.geometry s
    exact ⟨geometry, ⟨file, hfile, hingest⟩, hgeometry⟩

end

end Layout

open Layout Writing

/-- With clamping every target area is written, and a compiled document has one for each that the
scene has. The number that is read back is the nearest place. The mark of the last target is the one
in the scene exactly where the number is a place; below all places it is gone, and above them it is
set. -/
theorem decode_clamped_target {settings : Settings} (hclamp : settings.clampCoordinates = true) :
    (∀ x0 y0 x1 y1 id number last, Doubles number → ∀ w s rs, w.Holds s rs → ∃ g,
      outcome (.geometry (Geometry.targetArea x0 y0 x1 y1 id number last).clamped) w = .ok () ∧
        Document.decode
          (after (.geometry (Geometry.targetArea x0 y0 x1 y1 id number last).clamped) w).bytes =
            .ok ⟨s, rs ++ [.geometry g]⟩ ∧
        g.targetSequence? = some (nearestPlace number, clampedMark number last)) ∧
    ∀ ingest d c, compile settings .standard ingest d = .ok c →
      ∃ (root : Node) (doc : Document) (geometry : List Geometry),
        Node.ofDescription .standard d.members = .ok root ∧ Document.decode c.bytes = .ok doc ∧
        SceneGeometry ⟨settings, d.directory?, ingest⟩ root d.members geometry ∧
        doc.geometry.length = geometry.length ∧
        ∀ (i : Nat) x0 y0 x1 y1 id number last, Doubles number →
          geometry[i]? = some (.targetArea x0 y0 x1 y1 id number last) →
            ∃ g, doc.geometry[i]? = some g ∧
              g.targetSequence? = some (nearestPlace number, clampedMark number last) := by
  refine ⟨?_, ?_⟩
  · intro x0 y0 x1 y1 id number last hnumber w s rs hw
    let call : Call := ⟨.geometry (Geometry.targetArea x0 y0 x1 y1 id number last).clamped, _, rfl⟩
    have hcall : outcome call.entry w = .ok () := outcome_clamped rfl w
    exact ⟨_, hcall, holds_decode (holds_after hw hcall),
      targetSequence?_clamped hnumber x0 y0 x1 y1 id last⟩
  · intro ingest d c hcompile
    obtain ⟨root, doc, hroot, hdecode, -, -, hrecords⟩ := document_of_compile hcompile
    obtain ⟨geometry, hsource, hgeometry⟩ := hrecords.geometry doc.simulation
    simp only [hclamp, if_true] at hgeometry
    refine ⟨root, doc, geometry, hroot, hdecode, hsource, ?_, ?_⟩
    · rw [hgeometry, List.length_map]
    · intro i x0 y0 x1 y1 id number last hnumber hi
      refine ⟨_, ?_, targetSequence?_clamped hnumber x0 y0 x1 y1 id last⟩
      rw [hgeometry, List.getElem?_map, hi]
      rfl

namespace Beyond

/-- A hall with a target whose number is above all places; it is not the last one. -/
def description : Description where
  members := [("scene", .object [("file", .string "hall")])]
  directory? := none

def settings : Settings := ⟨true, true, true⟩

def target : Geometry := .targetArea 0 0 0 0 0 200 false

def compiled : Compiled where
  bytes := [1, 1, 0, 3, 0, 0, 0, 0, 0, 0, 0, 0, 0, 255, 1, 0, 255, 0, 4, 104, 97, 108, 108,
    1, 0, 19, 0, 0, 0, 0, 0, 0, 0, 0]
  recordCount := 3

theorem compile_description :
    compile settings .standard (fun _ => .ok [target]) description = .ok compiled := by
  cbv

end Beyond

open Beyond in
theorem decode_clamped_target_beyond :
    settings.clampCoordinates = true ∧ Doubles 200 ∧
      (Writer.empty.simulation .flow).Holds .flow [] ∧
      (∃ g, Document.decode (after (.geometry target.clamped) (Writer.empty.simulation .flow)).bytes =
        .ok ⟨.flow, [.geometry g]⟩ ∧ g.targetSequence? = some (127, true)) ∧
      compile settings .standard (fun _ => .ok [target]) description = .ok compiled ∧
      ∃ doc, Document.decode compiled.bytes = .ok doc ∧ doc.geometry.length = 1 ∧
        ∃ g, doc.geometry[0]? = some g ∧ g.targetSequence? = some (127, true) := by
  have hclamp : settings.clampCoordinates = true := rfl
  have hnumber : Doubles 200 := by decide
  have hempty := holds_simulation .flow
  obtain ⟨hwriter, hcompiled⟩ := decode_clamped_target hclamp
  obtain ⟨g, -, hdecode, hsequence⟩ := hwriter 0 0 0 0 0 200 false hnumber _ _ _ hempty
  obtain ⟨root, doc, geometry, -, hdoc, hsource, hlength, htargets⟩ :=
    hcompiled (fun _ => .ok [target]) description compiled compile_description
  have hgeometry : geometry = [target] := by
    obtain ⟨file, -, hingest⟩ := hsource
    cases hingest
    rfl
  rw [hgeometry] at hlength htargets
  refine ⟨hclamp, hnumber, hempty, ⟨g, hdecode, hsequence⟩, compile_description, doc, hdoc, hlength,
    ?_⟩
  exact htargets 0 0 0 0 0 0 200 false hnumber rfl

/-- Clamping marks a target as the last one that is not. -/
theorem clamped_target_marked :
    Doubles 200 ∧ compile Beyond.settings .standard (fun _ => .ok [Beyond.target])
        Beyond.description = .ok Beyond.compiled ∧
      ∃ doc, Document.decode Beyond.compiled.bytes = .ok doc ∧
        doc.geometry.map Geometry.targetSequence? = [some (127, true)] ∧
        [some (127, true)] ≠ [some (nearestPlace 200, false)] := by
  refine ⟨by decide, Beyond.compile_description,
    ⟨.flow, [.geometry Beyond.target.clamped, .sceneFile "hall", .sceneScale .zero]⟩, ?_, ?_, ?_⟩
  · cbv
  · cbv
  · decide

end CrowdScenario

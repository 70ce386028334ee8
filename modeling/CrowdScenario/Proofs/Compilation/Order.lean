import CrowdScenario.Proofs.Compilation.Decoding
import CrowdScenario.Proofs.Encoding.Order

/-!
# The order of compiled documents

A document can be had step by step: every step of the encoding is taken alone, on a tree of its
own, and the results are put together in the order of the tree. What was resolved for an earlier
step, and what an earlier step has written, makes no difference (`compile_stepwise`).
-/

namespace CrowdScenario

open Encoding

/-- The document of a description, with a tree of its own for every step. -/
def Compilation.stepwise (settings : Settings) (registry : Registry) (ingest : Ingestor)
    (d : Description) : Except CompileError Compiled :=
  match Node.ofDescription registry d.members with
  | .error e => .error e
  | .ok root =>
    (combine ((steps [] root).map (Step.alone ⟨settings, d.directory?, ingest⟩ root))).map .ofWriter

section
variable {ctx : Context} {root : Node} {registry : Registry}

theorem of_mem_steps_root (hbuilt : root.Built registry) {s : Step} (hs : s ∈ steps [] root) :
    s.Of root :=
  of_mem_steps (fun _ _ hn _ hp => hbuilt.at?_child hn hp) [] root rfl s hs

/-- Without memory a tree is encoded by the steps of its sections, one after another. -/
theorem encode_eq_allPlain (hbuilt : root.Built registry) (hscene : root.SingleScene)
    (hapart : root.ScenesApart) :
    (Resolution.perform (Compilation.encode ctx root) .empty).1 =
      (allPlain ctx (Plain.field ctx root []) (steps [] root)).map .ofWriter := by
  rw [(agrees_encode ctx hbuilt hscene hapart).fresh, Inquiry.bind_apply, encodeNode_eq,
    map_join_empty]
  show (allPlain ctx (Plain.field ctx root []) (steps [] root) >>= _) =
    Except.map _ (allPlain _ _ _)
  cases allPlain ctx (Plain.field ctx root []) (steps [] root) <;> rfl

theorem encode_eq_combine (hbuilt : root.Built registry) (hscene : root.SingleScene)
    (hapart : root.ScenesApart) :
    (Resolution.perform (Compilation.encode ctx root) .empty).1 =
      (combine ((steps [] root).map (Step.alone ctx root))).map .ofWriter := by
  have halone : (steps [] root).map (Step.alone ctx root) =
      (steps [] root).map fun s => s.plain ctx .empty (Plain.field ctx root []) :=
    List.map_congr_left fun s hs => alone_eq hscene hapart (of_mem_steps_root hbuilt hs)
  rw [encode_eq_allPlain hbuilt hscene hapart, halone, allPlain]

theorem map_alone_eq_ok {ss : List Step} {ws : List Writer} :
    ss.map (Step.alone ctx root) = ws.map .ok ↔
      List.Forall₂ (fun s w => s.alone ctx root = .ok w) ss ws := by
  rw [← List.forall₂_eq_eq_eq, List.forall₂_map_left_iff, List.forall₂_map_right_iff]

theorem combine_alone_eq_ok (ctx : Context) (hbuilt : root.Built registry)
    (hscene : root.SingleScene) (hapart : root.ScenesApart) (w : Writer) :
    combine ((steps [] root).map (Step.alone ctx root)) = .ok w ↔
      ∃ ws, List.Forall₂ (fun s w => s.alone ctx root = .ok w ∧ s.Writes ctx root w)
        (steps [] root) ws ∧ w = joined ws := by
  have hwrites : ∀ ws, List.Forall₂ (fun s w => s.alone ctx root = .ok w) (steps [] root) ws →
      List.Forall₂ (fun s w => s.alone ctx root = .ok w ∧ s.Writes ctx root w)
        (steps [] root) ws := by
    intro ws hws
    have hof := (List.forall₂_and_left (steps [] root) ws).mpr
      ⟨fun s hs => of_mem_steps_root hbuilt hs, hws⟩
    exact hof.imp fun s w h => ⟨h.2, writes_of_alone hscene hapart h.1 h.2⟩
  rw [combine_eq_ok]
  constructor
  · rintro ⟨ws, hws, hw⟩
    exact ⟨ws, hwrites ws (map_alone_eq_ok.mp hws), hw⟩
  · rintro ⟨ws, hws, hw⟩
    exact ⟨ws, map_alone_eq_ok.mpr (hws.imp fun _ _ h => h.1), hw⟩

theorem combine_alone_eq_error {ss : List Step} {e : CompileError} :
    combine (ss.map (Step.alone ctx root)) = .error e ↔
      ∃ before s behind, ss = before ++ s :: behind ∧
        (∀ s' ∈ before, ∃ w, s'.alone ctx root = .ok w) ∧ s.alone ctx root = .error e := by
  rw [combine_eq_error]
  constructor
  · rintro ⟨results, results', h, hok⟩
    obtain ⟨before, rest, rfl, rfl, hrest⟩ := List.map_eq_append_iff.mp h
    obtain ⟨s, behind, rfl, hs, -⟩ := List.map_eq_cons_iff.mp hrest
    exact ⟨before, s, behind, rfl, fun s' hs' => hok _ (List.mem_map_of_mem hs'), hs⟩
  · rintro ⟨before, s, behind, rfl, hok, hs⟩
    refine ⟨before.map (Step.alone ctx root), behind.map (Step.alone ctx root), ?_, ?_⟩
    · rw [List.map_append, List.map_cons, hs]
    · intro r hr
      obtain ⟨s', hs', rfl⟩ := List.mem_map.mp hr
      exact hok s' hs'

end

/-- With the standard schemas, a compilation with a tree fails as the first step does that fails
alone. -/
theorem compile_eq_error_iff {settings : Settings} {ingest : Ingestor} {d : Description}
    {root : Node} (hroot : Node.ofDescription .standard d.members = .ok root) {e : CompileError} :
    compile settings .standard ingest d = .error e ↔
      ∃ before s behind, steps [] root = before ++ s :: behind ∧
        (∀ s' ∈ before, ∃ w, s'.alone ⟨settings, d.directory?, ingest⟩ root = .ok w) ∧
        s.alone ⟨settings, d.directory?, ingest⟩ root = .error e := by
  obtain ⟨hscene, hapart⟩ := Layout.scenes_of_description hroot
  have hcompile : compile settings .standard ingest d = (Resolution.perform
      (Compilation.encode ⟨settings, d.directory?, ingest⟩ root) .empty).1 := by
    unfold compile Compilation.run
    rw [hroot]
    rfl
  rw [hcompile, encode_eq_combine (Node.built_ofDescription hroot) hscene hapart, map_eq_error,
    combine_alone_eq_error]

/-- If no section has two scenes, nor a text that is written as a scene beside one, then compiling a
description is compiling it step by step. A document is what the steps write alone, one after
another in the order of the tree, and its records are theirs; and the first step that fails alone is
the one that the compilation fails at. -/
theorem compile_stepwise {registry : Registry}
    (hsingle : ∀ s ∈ registry.schemas, (s.fields.filter (·.kind = .sceneFile)).length ≤ 1)
    (hapart : ∀ s ∈ registry.schemas, s.ScenesApart) (settings : Settings) (ingest : Ingestor)
    (d : Description) :
    compile settings registry ingest d = Compilation.stepwise settings registry ingest d ∧
    (∀ c, compile settings registry ingest d = .ok c ↔
      ∃ root ws, Node.ofDescription registry d.members = .ok root ∧
        List.Forall₂ (fun s w => s.alone ⟨settings, d.directory?, ingest⟩ root = .ok w ∧
          s.Writes ⟨settings, d.directory?, ingest⟩ root w) (steps [] root) ws ∧
        c = ⟨(ws.map Writer.bytes).flatten, (ws.map Writer.recordCount).sum⟩) ∧
    ∀ e, compile settings registry ingest d = .error e ↔
      Node.ofDescription registry d.members = .error e ∨
      ∃ root before s behind, Node.ofDescription registry d.members = .ok root ∧
        steps [] root = before ++ s :: behind ∧
        (∀ s' ∈ before, ∃ w, s'.alone ⟨settings, d.directory?, ingest⟩ root = .ok w) ∧
        s.alone ⟨settings, d.directory?, ingest⟩ root = .error e := by
  have hcompile : compile settings registry ingest d =
      Compilation.stepwise settings registry ingest d := by
    unfold compile Compilation.run Compilation.stepwise
    cases hroot : Node.ofDescription registry d.members with
    | error e => rfl
    | ok root =>
      have hbuilt := Node.built_ofDescription hroot
      exact encode_eq_combine hbuilt (hbuilt.singleScene hsingle) (hbuilt.scenesApart hapart)
  rw [hcompile, Compilation.stepwise]
  cases hroot : Node.ofDescription registry d.members with
  | error e => simp
  | ok root =>
    have hbuilt := Node.built_ofDescription hroot
    have hok := fun w => combine_alone_eq_ok ⟨settings, d.directory?, ingest⟩ hbuilt
      (hbuilt.singleScene hsingle) (hbuilt.scenesApart hapart) w
    refine ⟨rfl, fun c => ?_, fun e => ?_⟩
    · simp only [map_eq_ok, hok]
      constructor
      · rintro ⟨_, ⟨ws, hws, rfl⟩, rfl⟩
        exact ⟨root, ws, rfl, hws, rfl⟩
      · rintro ⟨root', ws, hroot', hws, rfl⟩
        cases hroot'
        exact ⟨joined ws, ⟨ws, hws, rfl⟩, rfl⟩
    · simp only [map_eq_error, combine_alone_eq_error]
      constructor
      · rintro ⟨before, s, behind, hsteps, hbefore, hs⟩
        exact .inr ⟨root, before, s, behind, rfl, hsteps, hbefore, hs⟩
      · rintro (hfail | ⟨root', before, s, behind, hroot', hsteps, hbefore, hs⟩)
        · cases hfail
        · cases hroot'
          exact ⟨before, s, behind, hsteps, hbefore, hs⟩

namespace Rated

def schema : Schema where
  name := Schema.rootName
  owner := some .time
  fields := [⟨"tick", .float, some (.reference "ref:rate"), .float 2⟩,
    ⟨"rate", .float, none, .float 3⟩]
  names_nodup := by decide
  owner_of_emission := nofun

def registry : Registry where
  schemas := [schema]
  names_nodup := by decide

def plain : Description where
  members := [("rate", .float ⟨0x4000000000000000⟩)]
  directory? := none

def turning : Description where
  members := [("rate", .string "ref:rate"), ("tick", .float .zero)]
  directory? := none

def compiled : Compiled where
  bytes := [2, 0, 2, 0, 0, 0, 0, 0, 0, 0, 64, 2, 0, 3, 0, 0, 0, 0, 0, 0, 0, 64]
  recordCount := 2

end Rated

open Rated in
theorem compile_stepwise_rated :
    (compile .standard registry (fun _ => .ok []) plain = .ok compiled ∧
      Compilation.stepwise .standard registry (fun _ => .ok []) plain = .ok compiled) ∧
    ∃ root before s behind, Node.ofDescription registry turning.members = .ok root ∧
      steps [] root = before ++ s :: behind ∧
      (∀ s' ∈ before, ∃ w, s'.alone ⟨.standard, none, fun _ => .ok []⟩ root = .ok w) ∧
      s.alone ⟨.standard, none, fun _ => .ok []⟩ root = .error (.cyclicReference "rate") := by
  have hplain := compile_stepwise (show ∀ s ∈ registry.schemas, _ by decide) (by decide) .standard
    (fun _ => .ok []) plain
  have hturning := compile_stepwise (show ∀ s ∈ registry.schemas, _ by decide) (by decide) .standard
    (fun _ => .ok []) turning
  have hcompiled : compile .standard registry (fun _ => .ok []) plain = .ok compiled := by
    cbv
  have hfails : compile .standard registry (fun _ => .ok []) turning =
      .error (.cyclicReference "rate") := by
    cbv
  refine ⟨⟨hcompiled, hplain.1.symm.trans hcompiled⟩, ?_⟩
  rcases (hturning.2.2 _).mp hfails with hfail | hstep
  · have hbuilds : (Node.ofDescription registry turning.members).toBool = true := by cbv
    rw [hfail] at hbuilds
    cases hbuilds
  · exact hstep

namespace Captioned

/-- A scene with a caption that is written as a scene too. -/
def schema : Schema where
  name := Schema.rootName
  owner := some .scene
  fields := [⟨"file", .sceneFile, none, .sceneFile 1⟩, ⟨"caption", .text, none, .sceneFile 2⟩]
  names_nodup := by decide
  owner_of_emission := nofun

def registry : Registry where
  schemas := [schema]
  names_nodup := by decide

def description : Description where
  members := [("file", .string "hall")]
  directory? := none

end Captioned

open Captioned in
/-- The encoder writes the geometry of the scene with the caption as well, since it is resolved by
then. Alone the caption has no geometry. -/
theorem compile_unlike_stepwise :
    (∀ s ∈ registry.schemas, (s.fields.filter (·.kind = .sceneFile)).length ≤ 1) ∧
      compile .standard registry (fun _ => .ok [Geometry.width 1]) description ≠
        Compilation.stepwise .standard registry (fun _ => .ok [Geometry.width 1]) description := by
  have hcompile : compile .standard registry (fun _ => .ok [Geometry.width 1]) description =
      .ok ⟨[1, 0, 17, 0, 1, 1, 0, 1, 0, 4, 104, 97, 108, 108, 1, 0, 17, 0, 1,
        1, 0, 2, 0, 0], 4⟩ := by
    cbv
  have hsteps : Compilation.stepwise .standard registry (fun _ => .ok [Geometry.width 1])
      description =
        .ok ⟨[1, 0, 17, 0, 1, 1, 0, 1, 0, 4, 104, 97, 108, 108, 1, 0, 2, 0, 0], 3⟩ := by
    cbv
  refine ⟨by decide, ?_⟩
  rw [hcompile, hsteps]
  simp

end CrowdScenario

import CrowdScenario.Proofs.Compilation.Alike
import CrowdScenario.Proofs.Compilation.Order
import CrowdScenario.Proofs.Resolution.Dangling

/-!
# Descriptions with references that lead nowhere

Where references need not lead anywhere, a field whose reference leads nowhere could as well be left
out: no operation tells the difference, and the document stays the same
(`answers_without_dangling`). Documents need that scenes are apart, since following a reference may
leave the geometry of a scene behind (`compile_unlike_without_dangling`).
-/

namespace CrowdScenario

namespace Operation

variable {ctx : Context} {registry : Registry} {root root' : Node}

theorem plain_eq_of_outline (h : root.outline = root'.outline) (op : Operation) :
    op.plain ctx root = op.plain ctx root' := by
  cases op with
  | resolve here name =>
    refine Node.Alike.inSection_eq h here fun n n' hsame => ?_
    rw [Node.schema_eq_of_outline hsame]
  | lookup here name =>
    refine Node.Alike.inSection_eq h here fun n n' hsame => ?_
    rw [Node.schema_eq_of_outline hsame]
  | tryResolve expression => simp only [plain, Plain.follow_eq_of_outline h]
  | mustResolve expression =>
    simp only [plain, Plain.requireReference, Plain.follow_eq_of_outline h]
  | kind here =>
    simp only [plain]
    exact Node.Alike.inDistribution_eq h here fun _ _ => rfl
  | value here =>
    simp only [plain]
    exact Node.Alike.inDistribution_eq h here fun _ _ => rfl
  | write here w =>
    simp only [plain]
    exact Node.Alike.inDistribution_eq h here fun _ _ => rfl
  | encode here w =>
    refine Node.Alike.inSection_eq h here fun n n' hsame => ?_
    have hencode : Plain.encodeNode ctx here n w = Plain.encodeNode ctx here n' w := by
      funext read
      rw [Encoding.encodeNode_eq, Encoding.encodeNode_eq, Encoding.steps_eq_of_outline hsame]
    rw [hencode]

theorem perform_after_eq_plain (hbuilt : root.Built registry) (hscene : root.SingleScene)
    (history : List Operation) (op : Operation)
    (hapart : ∀ here w, op = .encode here w → root.ScenesApart) :
    (Resolution.perform (op.run ctx root) (after ctx root history .empty)).1 =
      op.plain ctx root (Plain.field ctx root []) := by
  have hempty : Memo.Keeps ctx root .empty [] [] := Memo.Keeps.empty
  obtain ⟨found, hm⟩ := keeps_after hbuilt hscene history hempty
  obtain ⟨m', found', hrun, -⟩ := (agrees_run hbuilt hscene op hapart).agreesAt found _ hm
  rw [hrun]

end Operation

def Edit.dropReference (expression : String) : Edit := fun _ schema _ members members' =>
  ∃ f ∈ schema.fields, f.kind.isNested = false ∧
    (∃ j, Json.member? members f.name = some j ∧ (Input.json j).reference? = some expression) ∧
    members' = Json.eraseMember f.name members

theorem Edit.dropReference_keepsSections (registry : Registry) (expression : String) :
    (dropReference expression).KeepsSections registry := by
  refine Node.keepsSections_of_value ?_
  intro here schema slot? members members' h
  obtain ⟨f, hf, hplain, -, rfl⟩ := h
  exact ⟨(Node.undeclared?_eraseMember (Schema.field?_ne_none hf)).symm, f, hf, hplain,
    sameBut_eraseMember hf members⟩

theorem Json.supplied?_of_reference {members : Members} {name expression : String} {j : Json}
    (hj : member? members name = some j) (hreference : (Input.json j).reference? = some expression) :
    supplied? members name = some j := by
  cases j with
  | string s => rw [supplied?, hj]; rfl
  | _ => cases hreference

theorem Edit.drops_of_dropReference {expression : String} {root root' : Node}
    (hedited : root.Edited (dropReference expression) [] root') :
    Node.Drops false expression root root' where
  outline := hedited.outline
  sources id n n' f hfield hfield' hplain := by
    have hmem := (Schema.mem_of_field? (Node.field?_eq_some.mp hfield).2).1
    obtain ⟨hslot, hsupplied | hdrop⟩ := hedited.supplied_or_edit hfield hfield' hplain
    · exact .inl (Node.sources_eq_of_supplied hslot hsupplied false)
    · obtain ⟨g, hg, -, ⟨j, hj, hreference⟩, hmembers⟩ := hdrop
      by_cases hsame : f = g
      · subst hsame
        have hgiven := Json.supplied?_of_reference hj hreference
        have hgone : Json.supplied? n'.members f.name = none := by
          rw [hmembers, Json.supplied?_eraseMember_self]
        have hauthor : Source.ofAuthor false j = .reference expression false := by
          rw [Source.ofAuthor, hreference]
        rw [Node.sources, Node.sources, hgiven, hgone, Option.map_some, hauthor, Node.fallback?,
          Node.fallback?, hslot]
        exact .inr rfl
      · have hother := sameBut_eraseMember hg n.members f hmem hsame
        rw [← hmembers] at hother
        exact .inl (Node.sources_eq_of_supplied hslot hother false)

/-- Where references need not lead anywhere, a field whose reference leads nowhere on a fresh tree may
be left out. Every operation answers the same, whatever was done before, and the document is the
same; the encoding of sections needs that scenes are apart. -/
theorem answers_without_dangling {ctx : Context} {registry : Registry}
    {members members' : Json.Members} {root : Node} {expression : String}
    (hlenient : ctx.settings.strictReferences = false)
    (hsingle : ∀ s ∈ registry.schemas, (s.fields.filter (·.kind = .sceneFile)).length ≤ 1)
    (hroot : Node.ofDescription registry members = .ok root)
    (hdrop : (Edit.dropReference expression).Once registry members members')
    (hdangles : (Resolution.perform (Resolution.resolveReference ctx root expression) .empty).1 =
      .ok none) :
    ∃ root', Node.ofDescription registry members' = .ok root' ∧ root.outline = root'.outline ∧
      (∀ (history history' : List Operation) (op : Operation),
        (∀ here w, op = .encode here w → ∀ s ∈ registry.schemas, s.ScenesApart) →
          (Resolution.perform (op.run ctx root) (Operation.after ctx root history .empty)).1 =
            (Resolution.perform (op.run ctx root') (Operation.after ctx root' history' .empty)).1) ∧
      ((∀ s ∈ registry.schemas, s.ScenesApart) →
        compile ctx.settings registry ctx.ingest ⟨members, ctx.directory?⟩ =
          compile ctx.settings registry ctx.ingest ⟨members', ctx.directory?⟩) := by
  have hmatches := hdrop.edited (Edit.dropReference_keepsSections registry expression)
  rw [hroot] at hmatches
  cases hroot' : Node.ofDescription registry members' with
  | error e =>
    rw [hroot'] at hmatches
    cases hmatches
  | ok root' =>
    rw [hroot'] at hmatches
    cases hmatches with
    | ok hedited =>
      have hbuilt := Node.built_ofDescription hroot
      have hbuilt' := Node.built_ofDescription hroot'
      have hscene := hbuilt.singleScene hsingle
      have hscene' := hbuilt'.singleScene hsingle
      have hdrops := Edit.drops_of_dropReference hedited
      rw [← hlenient] at hdrops
      have hvalues := Plain.field_eq_of_drops hbuilt hscene hdrops hdangles
      refine ⟨root', rfl, hedited.outline, fun history history' op hapart => ?_, fun hapart => ?_⟩
      · rw [Operation.perform_after_eq_plain hbuilt hscene history op fun here w heq =>
            hbuilt.scenesApart (hapart here w heq),
          Operation.perform_after_eq_plain hbuilt' hscene' history' op fun here w heq =>
            hbuilt'.scenesApart (hapart here w heq),
          Operation.plain_eq_of_outline hedited.outline, hvalues]
      · have hencode : (Resolution.perform (Compilation.encode ctx root) .empty).1 =
            (Resolution.perform (Compilation.encode ctx root') .empty).1 := by
          rw [encode_eq_allPlain hbuilt hscene (hbuilt.scenesApart hapart), hvalues,
            Encoding.steps_eq_of_outline hedited.outline,
            ← encode_eq_allPlain hbuilt' hscene' (hbuilt'.scenesApart hapart)]
        unfold compile Compilation.run
        simp only [hroot, hroot']
        exact hencode

namespace Lenient

def settings : Settings := { Settings.standard with strictReferences := false }

def surroundings : Context := ⟨settings, none, fun _ => .ok [Geometry.width 1]⟩

def scene : Json.Members := [("file", .string "hall"), ("scale", .string "ref:scene.file.[x]")]

/-- The scale of a scene is said to be a part of the name of its file, which has no parts. -/
def members : Json.Members := [("scene", .object scene)]

def members' : Json.Members := [("scene", .object [("file", .string "hall")])]

def tree : Node := ⟨.root, none, members, [("scene", ⟨.scene, none, scene, []⟩)]⟩

def compiled : Compiled where
  bytes := [1, 1, 0, 17, 0, 1, 1, 0, 255, 0, 4, 104, 97, 108, 108, 1, 0, 19, 0, 0, 0, 0, 0, 0, 0, 0]
  recordCount := 3

end Lenient

open Lenient in
theorem answers_without_dangling_scale :
    Node.ofDescription .standard members = .ok tree ∧
      (Edit.dropReference "ref:scene.file.[x]").Once .standard members members' ∧
      compile settings .standard surroundings.ingest ⟨members, none⟩ = .ok compiled := by
  have hroot : Node.ofDescription .standard members = .ok tree := by cbv
  have hdrop : (Edit.dropReference "ref:scene.file.[x]").Once .standard members members' :=
    ⟨.root, rfl, .nested (f := .nested "scene" "scene") (by decide) rfl
      Registry.schema?_scene rfl
      (.here ⟨.float "scale" Coordinate.sceneScale.element, by decide, rfl,
        ⟨.string "ref:scene.file.[x]", rfl, rfl⟩, rfl⟩)⟩
  have hdangles : (Resolution.perform
      (Resolution.resolveReference surroundings tree "ref:scene.file.[x]") .empty).1 = .ok none := by
    cbv
  obtain ⟨root', hroot', -, -, hcompile⟩ :=
    answers_without_dangling rfl (show ∀ s ∈ Registry.standard.schemas, _ by decide) hroot hdrop
      hdangles
  have hcompiled : compile settings .standard surroundings.ingest ⟨members', none⟩ =
      .ok compiled := by
    cbv
  exact ⟨hroot, hdrop, (hcompile (by decide)).trans hcompiled⟩

namespace Probing

/-- A label that is written as a scene, beside a scene that is not written. -/
def labelled : Schema where
  name := Schema.rootName
  owner := some .scene
  fields := [⟨"probe", .float, none, .float 3⟩, ⟨"label", .text, none, .sceneFile 1⟩,
    ⟨"file", .sceneFile, none, .skip⟩]
  names_nodup := by decide
  owner_of_emission := nofun

def double : Schema where
  name := Schema.rootName
  owner := some .scene
  fields := [⟨"probe", .float, none, .float 3⟩, ⟨"first", .sceneFile, none, .sceneFile 1⟩,
    ⟨"second", .sceneFile, none, .sceneFile 2⟩]
  names_nodup := by decide
  owner_of_emission := nofun

def registry (s : Schema) : Registry where
  schemas := [s]
  names_nodup := List.nodup_singleton _

def ingest : Ingestor := fun path => .ok [.width (if path = "a" then 1 else 2)]

def surroundings : Context := ⟨Lenient.settings, none, ingest⟩

def beside : Json.Members := [("file", .string "a"), ("probe", .string "ref:file.[x]")]

def scenes : Json.Members :=
  [("first", .string "a"), ("probe", .string "ref:second.[x]"), ("second", .string "b")]

end Probing

open Probing in
/-- On its way to nothing a reference may resolve a scene. The encoder then writes the geometry of
that scene with a label beside it, or with another scene that is resolved earlier than its turn. -/
theorem compile_unlike_without_dangling :
    Lenient.settings.strictReferences = false ∧
    ((Edit.dropReference "ref:file.[x]").Once (registry labelled) beside
        [("file", .string "a")] ∧
      (Resolution.perform (Resolution.resolveReference surroundings
        ⟨labelled, none, beside, []⟩ "ref:file.[x]") .empty).1 = .ok none ∧
      Node.ofDescription (registry labelled) beside = .ok ⟨labelled, none, beside, []⟩ ∧
      compile Lenient.settings (registry labelled) ingest ⟨beside, none⟩ ≠
        compile Lenient.settings (registry labelled) ingest ⟨[("file", .string "a")], none⟩) ∧
    ((Edit.dropReference "ref:second.[x]").Once (registry double) scenes
        [("first", .string "a"), ("second", .string "b")] ∧
      (Resolution.perform (Resolution.resolveReference surroundings
        ⟨double, none, scenes, []⟩ "ref:second.[x]") .empty).1 = .ok none ∧
      Node.ofDescription (registry double) scenes = .ok ⟨double, none, scenes, []⟩ ∧
      compile Lenient.settings (registry double) ingest ⟨scenes, none⟩ ≠
        compile Lenient.settings (registry double) ingest
          ⟨[("first", .string "a"), ("second", .string "b")], none⟩) := by
  have hbeside : compile Lenient.settings (registry labelled) ingest ⟨beside, none⟩ =
      .ok ⟨[1, 0, 3, 0, 0, 0, 0, 0, 0, 0, 0, 1, 0, 17, 0, 1, 1, 0, 1, 0, 0], 3⟩ := by
    cbv
  have hbeside' : compile Lenient.settings (registry labelled) ingest
      ⟨[("file", .string "a")], none⟩ =
        .ok ⟨[1, 0, 3, 0, 0, 0, 0, 0, 0, 0, 0, 1, 0, 1, 0, 0], 2⟩ := by
    cbv
  have hscenes : compile Lenient.settings (registry double) ingest ⟨scenes, none⟩ =
      .ok ⟨[1, 0, 3, 0, 0, 0, 0, 0, 0, 0, 0, 1, 0, 17, 0, 1, 1, 0, 1, 0, 1, 97,
        1, 0, 17, 0, 1, 1, 0, 2, 0, 1, 98], 5⟩ := by
    cbv
  have hscenes' : compile Lenient.settings (registry double) ingest
      ⟨[("first", .string "a"), ("second", .string "b")], none⟩ =
        .ok ⟨[1, 0, 3, 0, 0, 0, 0, 0, 0, 0, 0, 1, 0, 17, 0, 1, 1, 0, 1, 0, 1, 97,
          1, 0, 17, 0, 2, 1, 0, 2, 0, 1, 98], 5⟩ := by
    cbv
  have hdrop : (Edit.dropReference "ref:file.[x]").Once (registry labelled) beside
      [("file", .string "a")] :=
    ⟨labelled, rfl, .here ⟨⟨"probe", .float, none, .float 3⟩, by decide, rfl,
      ⟨.string "ref:file.[x]", rfl, rfl⟩, rfl⟩⟩
  have hdrop' : (Edit.dropReference "ref:second.[x]").Once (registry double) scenes
      [("first", .string "a"), ("second", .string "b")] :=
    ⟨double, rfl, .here ⟨⟨"probe", .float, none, .float 3⟩, by decide, rfl,
      ⟨.string "ref:second.[x]", rfl, rfl⟩, rfl⟩⟩
  refine ⟨rfl, ⟨hdrop, by cbv, by cbv, ?_⟩, hdrop', by cbv, by cbv, ?_⟩
  · rw [hbeside, hbeside']
    intro h
    cases h
  · rw [hscenes, hscenes']
    intro h
    cases h

end CrowdScenario

import CrowdScenario.Proofs.Compilation.Order
import CrowdScenario.Proofs.Compilation.Parts

/-!
# Sections that do not interfere

What a section of a description says goes to one run of records of the document. The rest of the
document does not depend on it, unless it is referred to from outside (`compile_sections_apart`).
-/

namespace CrowdScenario
namespace Layout

section
variable {settings : Settings} {ingest : Ingestor} {d : Description} {c : Compiled} {root : Node}

theorem compile_eq_ok_iff (hroot : Node.ofDescription .standard d.members = .ok root) :
    compile settings .standard ingest d = .ok c ↔
      ∃ w, Encoding.allPlain ⟨settings, d.directory?, ingest⟩
        (Plain.field ⟨settings, d.directory?, ingest⟩ root []) (Encoding.steps [] root) = .ok w ∧
          .ofWriter w = c := by
  have hbuilt := Node.built_ofDescription hroot
  obtain ⟨hscene, hapart⟩ := scenes_of_description hroot
  rw [compile, Compilation.run, hroot]
  show (Resolution.perform (Compilation.encode _ root) .empty).1 = .ok c ↔ _
  rw [encode_eq_allPlain hbuilt hscene hapart, Encoding.map_eq_ok]

theorem opening_eq_ok {ctx : Context} {w : Writer} (hscene : root.SingleScene)
    (hroot : root.schema = .root)
    (h : Encoding.allPlain ctx (Plain.field ctx root []) opening = .ok w) :
    ∃ code, w = ⟨[code], 0⟩ := by
  have hfields : Plain.encodeFields ctx [] .root Schema.root.fields .empty
      (Plain.field ctx root []) = .ok w := by
    rw [Encoding.encodeFields_eq, Encoding.map_join_empty]
    exact h
  obtain ⟨s, ⟨⟨chunks, hwritten, hbytes⟩, hcount⟩, -⟩ := holds_opening hscene hroot hfields
  cases hwritten
  rcases w with ⟨bytes, count⟩
  cases hbytes
  cases hcount
  exact ⟨s.code, rfl⟩

structure Writes (ctx : Context) (root : Node) (first middle last : List (String × Node))
    (code : Byte) (before run behind : Writer) : Prop where
  of_opening : Encoding.allPlain ctx (Plain.field ctx root []) opening = .ok ⟨[code], 0⟩
  of_first : Encoding.allPlain ctx (Plain.field ctx root []) (Encoding.stepsBelow [] first) =
    .ok before
  of_middle : Encoding.allPlain ctx (Plain.field ctx root []) (Encoding.stepsBelow [] middle) =
    .ok run
  of_last : Encoding.allPlain ctx (Plain.field ctx root []) (Encoding.stepsBelow [] last) =
    .ok behind

variable {before behind : List Field} {f : Field} {first middle last : List (String × Node)}

theorem compile_eq_ok_iff_writes (hroot : Node.ofDescription .standard d.members = .ok root)
    (hsplit : Split d.members before f behind root first middle last) :
    compile settings .standard ingest d = .ok c ↔
      ∃ code w1 w2 w3,
        Writes ⟨settings, d.directory?, ingest⟩ root first middle last code w1 w2 w3 ∧
          c = ⟨code :: (w1.bytes ++ w2.bytes ++ w3.bytes),
            w1.recordCount + w2.recordCount + w3.recordCount⟩ := by
  have hscene := (scenes_of_description hroot).1
  rw [compile_eq_ok_iff hroot, hsplit.steps_eq]
  constructor
  · intro h
    obtain ⟨w, hw, rfl⟩ := h
    obtain ⟨w0, w', hopening, hrest, rfl⟩ := Encoding.allPlain_append_eq_ok.mp hw
    obtain ⟨w'', w3, hfront, hlast, rfl⟩ := Encoding.allPlain_append_eq_ok.mp hrest
    obtain ⟨w1, w2, hfirst, hmiddle, rfl⟩ := Encoding.allPlain_append_eq_ok.mp hfront
    obtain ⟨code, rfl⟩ := opening_eq_ok hscene (by rw [hsplit.tree]) hopening
    refine ⟨code, w1, w2, w3, ⟨hopening, hfirst, hmiddle, hlast⟩, ?_⟩
    simp [Compiled.ofWriter, Encoding.join]
  · intro h
    obtain ⟨code, w1, w2, w3, ⟨hopening, hfirst, hmiddle, hlast⟩, rfl⟩ := h
    have hfront := Encoding.allPlain_append_eq_ok.mpr ⟨w1, w2, hfirst, hmiddle, rfl⟩
    have hrest := Encoding.allPlain_append_eq_ok.mpr ⟨_, w3, hfront, hlast, rfl⟩
    refine ⟨_, Encoding.allPlain_append_eq_ok.mpr ⟨_, _, hopening, hrest, rfl⟩, ?_⟩
    simp [Compiled.ofWriter, Encoding.join]

end

section
variable {ctx : Context} {root root' : Node} {name : String}

theorem outside_of_opening {step : Encoding.Step} (h : step ∈ opening) :
    step.here.head? ≠ some name := by
  obtain ⟨f, -, rfl⟩ := List.mem_map.mp h
  exact (Option.some_ne_none name).symm

theorem outside_of_stepsBelow {children : List (String × Node)}
    (hchildren : ∀ p ∈ children, p.1 ≠ name) {step : Encoding.Step}
    (h : step ∈ Encoding.stepsBelow [] children) : step.here.head? ≠ some name := by
  obtain ⟨p, hp, below, hhere⟩ := Encoding.prefix_of_mem_stepsBelow [] children h
  rw [← hhere]
  simpa using hchildren p hp

theorem allPlain_outside
    (hread : ∀ id, id.owner.head? ≠ some name →
      Plain.field ctx root [] id = Plain.field ctx root' [] id)
    {steps : List Encoding.Step} (houtside : ∀ step ∈ steps, step.here.head? ≠ some name) :
    Encoding.allPlain ctx (Plain.field ctx root []) steps =
      Encoding.allPlain ctx (Plain.field ctx root' []) steps :=
  Encoding.allPlain_congr fun step hstep _ => hread _ (houtside step hstep)

end

end Layout

/-! ### Documents around a section -/

/-- A document in which the records of a section stand in one run, with the other records before it
and behind it. -/
structure Compiled.Around (c : Compiled) (s : Section) (code : Byte) (before run behind : Writer) :
    Prop where
  others_before : Document.Run (· ≠ s) before.bytes before.recordCount
  own_run : Document.Run (· = s) run.bytes run.recordCount
  others_behind : Document.Run (· ≠ s) behind.bytes behind.recordCount
  whole : c = ⟨code :: (before.bytes ++ run.bytes ++ behind.bytes),
    before.recordCount + run.recordCount + behind.recordCount⟩

theorem Compiled.Around.without {c : Compiled} {s : Section} {code : Byte}
    {before run behind : Writer} (h : c.Around s code before run behind) :
    Document.without s c.bytes = code :: (before.bytes ++ behind.bytes) := by
  rw [h.whole, Document.without_run h.others_before h.own_run h.others_behind]

/-- Descriptions that say the same outside of a section, where nothing refers into the section. -/
structure Description.AlikeOutside (s : Section) (d d' : Description) : Prop where
  directory : d.directory? = d'.directory?
  members : ∀ name, name ≠ s.name → Json.member? d.members name = Json.member? d'.members name
  references : ∀ root, Node.ofDescription .standard d.members = .ok root →
    ∀ id expression, root.Refers d.members id expression → id.owner.head? ≠ some s.name →
      ∀ rest, Reference.parse? expression ≠ some (.field s.name :: rest)
  /-- The arrivals may fall back to the end time. -/
  arrivals : s = .time → Json.suppliedAt? d.members ["spawn", "time"] = none

open Layout

section
variable {settings : Settings} {ingest : Ingestor} {s : Section} {d d' : Description}
  {root root' : Node} {before behind : List Field} {f : Field}
  {first middle last first' middle' last' : List (String × Node)}

theorem around_of_writes {ctx : Context} {code : Byte} {w1 w2 w3 : Writer}
    (hfields : RootAround s before f behind)
    (hroot : Node.ofDescription .standard d.members = .ok root)
    (hsplit : Split d.members before f behind root first middle last)
    (hwrites : Writes ctx root first middle last code w1 w2 w3) :
    Compiled.Around ⟨code :: (w1.bytes ++ w2.bytes ++ w3.bytes),
      w1.recordCount + w2.recordCount + w3.recordCount⟩ s code w1 w2 w3 := by
  have hbuilt := Node.built_ofDescription hroot
  have hscene := (scenes_of_description hroot).1
  have hin : ∀ g ∈ before ++ [f] ++ behind, g ∈ Schema.root.fields := by
    rw [hfields.fields]
    exact fun g hg => hg
  have hat : ∀ p ∈ first ++ middle ++ last, root.at? [p.1] = some p.2 := by
    intro p hp
    have hchild : (p.1, p.2) ∈ root.children := by
      rw [hsplit.tree]
      exact hp
    have hself : root.at? [] = some root := rfl
    exact hbuilt.at?_child hself hchild
  simp only [List.forall_mem_append] at hin hat
  have hfirst := run_of_children hscene hin.1.1 hsplit.built_first hat.1.1 hwrites.of_first
  have hmiddle := run_of_children hscene hin.1.2 hsplit.built_middle hat.1.2 hwrites.of_middle
  have hlast := run_of_children hscene hin.2 hsplit.built_last hat.2 hwrites.of_last
  refine ⟨hfirst.imp ?_, hmiddle.imp ?_, hlast.imp ?_, rfl⟩
  · rintro t ⟨g, hg, hname⟩ rfl
    exact hfields.others_before g hg hname
  · rintro t ⟨g, hg, hname⟩
    rw [List.mem_singleton.mp hg, hfields.name] at hname
    exact (Section.name_injective hname).symm
  · rintro t ⟨g, hg, hname⟩ rfl
    exact hfields.others_behind g hg hname

theorem Description.AlikeOutside.supplied? (h : AlikeOutside s d d') {name : String}
    (hname : name ≠ s.name) :
    Json.supplied? d.members name = Json.supplied? d'.members name := by
  rw [Json.supplied?, Json.supplied?, h.members name hname]

theorem Description.AlikeOutside.read_eq (h : AlikeOutside s d d')
    (hfields : RootAround s before f behind)
    (hroot : Node.ofDescription .standard d.members = .ok root)
    (hroot' : Node.ofDescription .standard d'.members = .ok root')
    (hsplit : Split d.members before f behind root first middle last)
    (hsplit' : Split d'.members before f behind root' first middle' last) (ctx : Context)
    {id : FieldId} (hout : id.owner.head? ≠ some s.name) :
    Plain.field ctx root [] id = Plain.field ctx root' [] id := by
  have hsame : Node.SameOutside s.name root root' := by
    rw [← hfields.name]
    refine hsplit.sameOutside hsplit' hfields.mem hfields.nested fun other hother => h.supplied? ?_
    rwa [← hfields.name]
  have hfree := freeOf_of_refers hroot (h.references root hroot) h.arrivals
    ctx.settings.strictReferences
  exact Plain.field_outside (Node.built_ofDescription hroot) (Node.built_ofDescription hroot') hsame
    hfree [] hout

theorem Description.AlikeOutside.writes (h : AlikeOutside s d d')
    (hfields : RootAround s before f behind)
    (hroot : Node.ofDescription .standard d.members = .ok root)
    (hroot' : Node.ofDescription .standard d'.members = .ok root')
    (hsplit : Split d.members before f behind root first middle last)
    (hsplit' : Split d'.members before f behind root' first middle' last) {ctx : Context}
    {code : Byte} {w1 w2 w3 w2' : Writer} (hwrites : Writes ctx root first middle last code w1 w2 w3)
    (hown : Encoding.allPlain ctx (Plain.field ctx root' []) (Encoding.stepsBelow [] middle') =
      .ok w2') :
    Writes ctx root' first middle' last code w1 w2' w3 := by
  have hread : ∀ id, id.owner.head? ≠ some s.name →
      Plain.field ctx root [] id = Plain.field ctx root' [] id :=
    fun id hout => h.read_eq hfields hroot hroot' hsplit hsplit' ctx hout
  have hfirst : ∀ p ∈ first, p.1 ≠ s.name := by
    intro p hp
    obtain ⟨g, hg, hname⟩ := name_of_mem_children hsplit.built_first p hp
    exact hname ▸ hfields.others_before g hg
  have hlast : ∀ p ∈ last, p.1 ≠ s.name := by
    intro p hp
    obtain ⟨g, hg, hname⟩ := name_of_mem_children hsplit.built_last p hp
    exact hname ▸ hfields.others_behind g hg
  refine ⟨?_, ?_, hown, ?_⟩
  · rw [← allPlain_outside hread fun step => outside_of_opening, hwrites.of_opening]
  · rw [← allPlain_outside hread fun step => outside_of_stepsBelow hfirst, hwrites.of_first]
  · rw [← allPlain_outside hread fun step => outside_of_stepsBelow hlast, hwrites.of_last]

theorem Description.AlikeOutside.checkMembers (h : AlikeOutside s d d')
    (hfields : RootAround s before f behind)
    (hcheck : Node.checkMembers .root [] d.members = .ok ()) :
    Node.checkMembers .root [] d'.members = .ok () := by
  rw [Node.checkMembers_eq_ok] at hcheck ⊢
  intro p hp
  by_cases hname : p.1 = s.name
  · rw [hname, ← hfields.name, Schema.field?_of_mem _ hfields.mem]
    exact Option.some_ne_none f
  · have hpresent : Json.member? d.members p.1 ≠ none := by
      rw [h.members p.1 hname, Json.member?, Ne, List.lookup_eq_none_iff]
      intro habsent
      simpa using habsent p hp
    obtain ⟨j, hj⟩ := Option.ne_none_iff_exists'.mp hpresent
    exact hcheck (p.1, j) (mem_of_lookup hj)

/-- Where both descriptions compile, the documents differ in the run of the section alone. -/
theorem Description.AlikeOutside.around (h : AlikeOutside s d d') {c c' : Compiled}
    (hc : compile settings .standard ingest d = .ok c)
    (hc' : compile settings .standard ingest d' = .ok c') :
    ∃ code before run run' behind, c.Around s code before run behind ∧
      c'.Around s code before run' behind := by
  obtain ⟨before, f, behind, hfields⟩ := exists_rootAround s
  obtain ⟨root, hroot, -⟩ := compile_eq_ok hc
  obtain ⟨root', hroot', -⟩ := compile_eq_ok hc'
  obtain ⟨-, first, middle, last, hsplit⟩ := (ofDescription_eq_ok_iff hfields.fields).mp hroot
  obtain ⟨-, first', middle', last', hsplit'⟩ := (ofDescription_eq_ok_iff hfields.fields).mp hroot'
  obtain ⟨rfl, rfl⟩ := hsplit.elsewhere hsplit'
    (fun g hg => h.supplied? (hfields.others_before g hg))
    (fun g hg => h.supplied? (hfields.others_behind g hg))
  obtain ⟨code, w1, w2, w3, hwrites, rfl⟩ := (compile_eq_ok_iff_writes hroot hsplit).mp hc
  obtain ⟨code', w1', w2', w3', hwrites', rfl⟩ :=
    (compile_eq_ok_iff_writes hroot' hsplit').mp hc'
  rw [← h.directory] at hwrites'
  have hagain := h.writes hfields hroot hroot' hsplit hsplit' hwrites hwrites'.of_middle
  have hopening := hagain.of_opening.symm.trans hwrites'.of_opening
  have hfirst := hagain.of_first.symm.trans hwrites'.of_first
  have hlast := hagain.of_last.symm.trans hwrites'.of_last
  cases hopening
  cases hfirst
  cases hlast
  exact ⟨code, w1, w2, w2', w3, around_of_writes hfields hroot hsplit hwrites,
    around_of_writes hfields hroot' hsplit' hwrites'⟩

theorem Description.AlikeOutside.omitted (h : AlikeOutside s d d')
    (hnone : Json.supplied? d'.members s.name = none) {c : Compiled}
    (hc : compile settings .standard ingest d = .ok c) :
    ∃ c', compile settings .standard ingest d' = .ok c' ∧
      ∃ code before run behind, c.Around s code before run behind ∧
        c'.Around s code before .empty behind := by
  obtain ⟨before, f, behind, hfields⟩ := exists_rootAround s
  obtain ⟨root, hroot, -⟩ := compile_eq_ok hc
  obtain ⟨hcheck, first, middle, last, hsplit⟩ :=
    (ofDescription_eq_ok_iff hfields.fields).mp hroot
  rw [← hfields.name] at hnone
  have hsplit' := hsplit.omitted (fun g hg => h.supplied? (hfields.others_before g hg))
    (fun g hg => h.supplied? (hfields.others_behind g hg)) hnone
  have hroot' := (ofDescription_eq_ok_iff hfields.fields).mpr
    ⟨h.checkMembers hfields hcheck, first, [], last, hsplit'⟩
  obtain ⟨code, w1, w2, w3, hwrites, rfl⟩ := (compile_eq_ok_iff_writes hroot hsplit).mp hc
  have hwrites' := h.writes hfields hroot hroot' hsplit hsplit' hwrites rfl
  have haround := around_of_writes hfields hroot hsplit hwrites
  have haround' := around_of_writes hfields hroot' hsplit' hwrites'
  rw [h.directory] at hwrites'
  exact ⟨_, (compile_eq_ok_iff_writes hroot' hsplit').mpr ⟨code, w1, .empty, w3, hwrites', rfl⟩,
    code, w1, w2, w3, haround, haround'⟩

end

/-- What is said in a section makes no difference outside of its run of records. Without the section
the document is the same but for the run. -/
theorem compile_sections_apart {settings : Settings} {ingest : Ingestor} {s : Section}
    {d d' : Description} (h : Description.AlikeOutside s d d') :
    (∀ c c', compile settings .standard ingest d = .ok c →
      compile settings .standard ingest d' = .ok c' →
        Document.without s c.bytes = Document.without s c'.bytes ∧
          ∃ code before run run' behind, c.Around s code before run behind ∧
            c'.Around s code before run' behind) ∧
      (Json.supplied? d'.members s.name = none →
        ∀ c, compile settings .standard ingest d = .ok c →
          ∃ c', compile settings .standard ingest d' = .ok c' ∧
            c'.bytes = Document.without s c.bytes ∧
              ∃ code before run behind, c.Around s code before run behind ∧
                c'.Around s code before .empty behind) := by
  constructor
  · intro c c' hc hc'
    obtain ⟨code, before, run, run', behind, haround, haround'⟩ := h.around hc hc'
    refine ⟨?_, code, before, run, run', behind, haround, haround'⟩
    rw [haround.without, haround'.without]
  · intro hnone c hc
    obtain ⟨c', hc', code, before, run, behind, haround, haround'⟩ := h.omitted hnone hc
    refine ⟨c', hc', ?_, code, before, run, behind, haround, haround'⟩
    rw [haround.without, haround'.whole]
    simp [Writer.empty]

namespace Apart

def two : Binary64 := ⟨0x4000000000000000⟩

def density : Json.Members := [("min_threshold", .float two)]

/-- As many arrive as the map shows. -/
def busy : Description where
  members := [("density_map", .object density),
    ("spawn", .object [("rate", .string "ref:density_map.min_threshold")])]
  directory? := none

def idle : Description where
  members := [("density_map", .object density)]
  directory? := none

def compiled : Compiled where
  bytes := [1, 3, 0, 1, 0, 0, 0, 0, 0, 0, 0, 64, 6, 0, 1, 0, 6, 0, 2, 0, 0, 0, 0, 0, 0, 0, 64,
    6, 0, 3, 0, 0, 0, 0, 0, 0, 0, 0]
  recordCount := 4

theorem compile_busy : compile .standard .standard (fun _ => .ok []) busy = .ok compiled := by
  cbv

theorem reference?_of_density {part : String} {rest : List String} {j : Json}
    (h : Json.suppliedAt? density (part :: rest) = some j) : (Input.json j).reference? = none := by
  have hnumber : ∀ {name : String} {j : Json}, Json.supplied? density name = some j →
      j = .float two := by
    intro name j hj
    have hmem := mem_of_lookup (Option.filter_eq_some_iff.mp hj).1
    simp only [density, List.mem_singleton, Prod.mk.injEq] at hmem
    exact hmem.2
  cases rest with
  | nil =>
    rw [hnumber h]
    decide
  | cons part' rest =>
    cases hj : Json.supplied? density part with
    | none =>
      rw [Json.suppliedAt?_of_none hj] at h
      cases h
    | some j' =>
      rw [Json.suppliedAt?, hj, hnumber hj] at h
      · cases h
      · exact List.cons_ne_nil part' rest

theorem alikeOutside_spawn : Description.AlikeOutside .spawn busy idle where
  directory := rfl
  members := by
    intro name hname
    have hne : (name == "spawn") = false := beq_eq_false_iff_ne.mpr hname
    simp only [Json.member?, busy, idle, List.lookup_cons, hne]
  references := by
    rintro root hroot ⟨owner, own⟩ expression ⟨n, f, j, -, hj, href⟩ hout rest -
    have hmember : ∀ {name : String} {j : Json}, Json.supplied? busy.members name = some j →
        ∃ block, j = .object block ∧ (name ≠ "spawn" → block = density) := by
      intro name j hj
      have hmem := mem_of_lookup (Option.filter_eq_some_iff.mp hj).1
      simp only [busy, List.mem_cons, Prod.mk.injEq, List.not_mem_nil, or_false] at hmem
      rcases hmem with ⟨-, rfl⟩ | ⟨rfl, rfl⟩
      · exact ⟨density, rfl, fun _ => rfl⟩
      · exact ⟨_, rfl, fun hname => absurd rfl hname⟩
    cases owner with
    | nil =>
      obtain ⟨block, rfl, -⟩ := hmember hj
      cases href
    | cons first below =>
      have hfirst : first ≠ "spawn" := fun heq => hout (congrArg some heq)
      obtain ⟨part, parts, hparts⟩ := List.exists_cons_of_ne_nil (List.concat_ne_nil own below)
      have hat : Json.suppliedAt? busy.members (first :: (below ++ [own])) = some j := hj
      rw [hparts] at hat
      cases hblock : Json.supplied? busy.members first with
      | none =>
        rw [Json.suppliedAt?_of_none hblock] at hat
        cases hat
      | some j' =>
        obtain ⟨block, rfl, hdensity⟩ := hmember hblock
        rw [Json.suppliedAt?_of_block hblock, hdensity hfirst] at hat
        rw [reference?_of_density hat] at href
        cases href
  arrivals := nofun

end Apart

open Apart in
theorem compile_sections_apart_spawn :
    Description.AlikeOutside .spawn busy idle ∧
      compile .standard .standard (fun _ => .ok []) busy = .ok compiled ∧
      ∃ c code before run behind,
        compile .standard .standard (fun _ => .ok []) idle = .ok c ∧
          c.bytes = [1, 6, 0, 1, 0, 6, 0, 2, 0, 0, 0, 0, 0, 0, 0, 64,
            6, 0, 3, 0, 0, 0, 0, 0, 0, 0, 0] ∧
          compiled.Around .spawn code before run behind ∧
          c.Around .spawn code before .empty behind := by
  have halike := alikeOutside_spawn
  have hapart := @compile_sections_apart .standard (fun _ => .ok []) .spawn busy idle halike
  obtain ⟨c, hc, hbytes, code, before, run, behind, haround, haround'⟩ :=
    hapart.2 rfl compiled compile_busy
  have hwithout : Document.without .spawn compiled.bytes = [1, 6, 0, 1, 0,
      6, 0, 2, 0, 0, 0, 0, 0, 0, 0, 64, 6, 0, 3, 0, 0, 0, 0, 0, 0, 0, 0] := by
    cbv
  rw [hwithout] at hbytes
  exact ⟨halike, compile_busy, c, code, before, run, behind, hc, hbytes, haround, haround'⟩

end CrowdScenario

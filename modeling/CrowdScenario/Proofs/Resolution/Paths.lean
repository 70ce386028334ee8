import CrowdScenario.Proofs.Reference.Grammar
import CrowdScenario.Proofs.Resolution.Kinds
import CrowdScenario.Proofs.Tree.Children
import Mathlib

/-!
# References and the paths of fields

A reference goes down through sections by their names, to the first name that is none, and selects
from the value there by the rest. Where the names of fields can be written between points, the
references with values are therefore the paths of fields and of side values, perhaps with one tag
behind them (`references_denote_fields`).
-/

namespace CrowdScenario

open Resolution

theorem Value.select?_eq_some {v w : Value} {selection : Reference} :
    v.select? selection = some w ↔ selection = [] ∧ w = v ∨ ∃ tag records g,
      selection = [.tag tag] ∧ v = .geometry records ∧
        records.find? (fun g => g.tag.name = tag) = some g ∧ w = .tuple g.members := by
  constructor
  · intro h
    match selection with
    | [] =>
      cases h
      exact .inl ⟨rfl, rfl⟩
    | .field name :: rest => cases h
    | .tag tag :: rest =>
      obtain ⟨selected, hselected, hrest⟩ := Option.bind_eq_some_iff.mp h
      cases v with
      | geometry records =>
        obtain ⟨g, hg, rfl⟩ := Option.map_eq_some_iff.mp hselected
        -- A tuple is selected, and nothing is selected from a tuple.
        match rest with
        | [] =>
          cases hrest
          exact .inr ⟨tag, records, g, rfl, rfl, hg, rfl⟩
        | .field name :: rest => cases hrest
        | .tag name :: rest => cases hrest
      | _ => cases hselected
  · rintro (⟨rfl, rfl⟩ | ⟨tag, records, g, rfl, rfl, hg, rfl⟩)
    · rfl
    · simp [select?, selectTag?, hg]

namespace Node

variable {registry : Registry} {n c : Node} {here below : Address} {name : String}

/-- A name in a section that has a value: that of a field or of a side value. -/
inductive Denotes (schema : Schema) (name : String) : Prop
  | field {f : Field} (declared : schema.field? name = some f) (plain : f.kind.isNested = false)
  | side (undeclared : schema.field? name = none) (side : name ∈ FieldKind.sceneFile.sideNames)

theorem locate?_ofAddress (hn : c.at? below = some n) (here : Address) (rest : Reference) :
    c.locate? here (Reference.ofAddress below ++ rest) = n.locate? (here ++ below) rest := by
  induction below generalizing c here with
  | nil =>
    cases hn
    rw [List.append_nil]
    rfl
  | cons name below ih =>
    obtain ⟨d, hd, hbelow⟩ := Option.bind_eq_some_iff.mp hn
    have hstep : c.locate? here (Reference.ofAddress (name :: below) ++ rest) =
        d.locate? (here ++ [name]) (Reference.ofAddress below ++ rest) := by
      show c.locate? here (.field name :: (Reference.ofAddress below ++ rest)) = _
      rw [locate?, hd]
    rw [hstep, ih hbelow, List.append_assoc, List.singleton_append]

/-- Where a reference leads somewhere, it goes down to a section by its first names, and the name
behind them stands for no section. -/
theorem locate?_eq_some {r : Reference} {t : Target} (h : c.locate? here r = some t) :
    ∃ below n name rest, r = Reference.ofAddress (below ++ [name]) ++ rest ∧
      c.at? below = some n ∧ n.child? name = none ∧
      target? n.schema (here ++ below) name rest = some t := by
  induction r generalizing c here with
  | nil => cases h
  | cons segment rest ih =>
    cases segment with
    | tag name => cases h
    | field name =>
      rw [locate?] at h
      split at h
      · next d hd =>
        obtain ⟨below, n, last, behind, rfl, hat, hchild, htarget⟩ := ih h
        refine ⟨name :: below, n, last, behind, rfl, ?_, hchild, ?_⟩
        · rw [at?, hd]
          exact hat
        · rwa [List.append_assoc, List.singleton_append] at htarget
      · next hchild =>
        refine ⟨[], c, name, rest, rfl, rfl, hchild, ?_⟩
        rwa [List.append_nil]

theorem denotes_of_target? {schema : Schema} {selection : Reference} {t : Target}
    (h : target? schema here name selection = some t) : Denotes schema name := by
  unfold target? at h
  split at h
  · next f hf =>
    split at h
    · cases h
    · next hplain => exact .field hf (by simpa using hplain)
  · next hnone =>
    obtain ⟨f, howner, -⟩ := Option.map_eq_some_iff.mp h
    have hside : name ∈ f.kind.sideNames := by simpa using List.find?_some howner
    cases hkind : f.kind with
    | sceneFile => exact .side hnone (hkind ▸ hside)
    | _ =>
      rw [hkind] at hside
      cases hside

theorem Denotes.child?_eq_none {members : Json.Members} {root : Node}
    (hroot : ofDescription registry members = .ok root) (hn : root.at? here = some n)
    (h : Denotes n.schema name) : n.child? name = none := by
  rw [Option.eq_none_iff_forall_ne_some]
  intro c hc
  have hgrown : Grown registry here n := (grown_ofDescription hroot).of_at? hn
  obtain ⟨f, hf, rfl, hbuild⟩ := hgrown.field_of_child hc
  have hdeclared := n.schema.field?_of_mem hf
  cases h with
  | field declared plain =>
    rw [hdeclared] at declared
    cases declared
    rw [isNested_of_buildChild hbuild] at plain
    cases plain
  | side undeclared _ =>
    rw [hdeclared] at undeclared
    cases undeclared

theorem fits_of_side : ∀ name ∈ FieldKind.sceneFile.sideNames, (Segment.field name).Fits := by
  decide

theorem Denotes.fits {schema : Schema} (h : Denotes schema name)
    (hnames : ∀ f ∈ schema.fields, (Segment.field f.name).Fits) : (Segment.field name).Fits := by
  cases h with
  | field declared _ =>
    obtain ⟨hf, rfl⟩ := Schema.mem_of_field? declared
    exact hnames _ hf
  | side _ side => exact fits_of_side name side

theorem fits_of_at? {root : Node} (hbuilt : root.Built registry)
    (hnames : ∀ s ∈ registry.schemas, ∀ f ∈ s.fields, (Segment.field f.name).Fits)
    (hn : root.at? here = some n) : here.Fits := by
  induction here generalizing root with
  | nil => exact nofun
  | cons name rest ih =>
    obtain ⟨c, hc, hrest⟩ := Option.bind_eq_some_iff.mp hn
    have hmem := mem_of_lookup hc
    cases hbuilt with
    | mk known ordered below =>
      have hname := ordered.subset (List.mem_map_of_mem (f := Prod.fst) hmem)
      obtain ⟨f, hf, hfield⟩ : ∃ f : Field, f ∈ _ ∧ f.name = name := List.mem_map.mp hname
      refine List.forall_mem_cons.mpr ⟨?_, ih (below _ hmem) hrest⟩
      rw [← hfield]
      exact hnames _ known f hf

end Node

namespace Resolution

section
variable {ctx : Context} {root n : Node} {here : Address} {name e : String} {rest : Reference}

theorem readTarget_select (read : FieldId → Resolution Value) (id : FieldId) (side? : Option String)
    (selection : Reference) :
    readTarget read ⟨id, side?, selection⟩ =
      (fun v? => v?.bind (·.select? selection)) <$> readTarget read ⟨id, side?, []⟩ := by
  cases side? with
  | none => simp [readTarget, Value.select?]
  | some name => simp [readTarget, Value.select?]

theorem resolveReference_eq_select (hn : root.at? here = some n) (hchild : n.child? name = none)
    (hparse : Reference.parse? e = some (Reference.ofAddress (here ++ [name]) ++ rest)) :
    resolveReference ctx root e =
      (fun v? => v?.bind (·.select? rest)) <$> lookup ctx root here n.schema name := by
  have hsplit : Reference.ofAddress (here ++ [name]) ++ rest =
      Reference.ofAddress here ++ .field name :: rest := by
    simp [Reference.ofAddress]
  have hlocate : root.locate? [] (Reference.ofAddress (here ++ [name]) ++ rest) =
      Node.target? n.schema here name rest := by
    rw [hsplit, Node.locate?_ofAddress hn, Node.locate?, hchild, List.nil_append]
  rw [resolveReference, follow, hparse]
  simp only [hlocate]
  rw [lookup]
  unfold Node.target?
  cases n.schema.field? name with
  | some f =>
    by_cases hnested : f.kind.isNested = true
    · simp [hnested]
    · simp only [hnested]
      exact readTarget_select _ _ _ rest
  | none =>
    cases n.schema.sideOwner? name with
    | none => simp
    | some f => exact readTarget_select _ _ _ rest

theorem resolveReference_eq_lookup (hn : root.at? here = some n) (hchild : n.child? name = none)
    (hfits : (here ++ [name]).Fits) :
    resolveReference ctx root ("ref:" ++ FieldId.path ⟨here, name⟩) =
      lookup ctx root here n.schema name := by
  have hne : here ++ [name] ≠ [] := List.concat_ne_nil _ _
  have hparse := Reference.parse?_ofAddress hne hfits
  rw [← List.append_nil (Reference.ofAddress _)] at hparse
  rw [FieldId.path_eq, resolveReference_eq_select hn hchild hparse]
  simp [Value.select?]

theorem lookup_of_field {f : Field} (hf : f ∈ n.schema.fields) (hplain : f.kind.isNested = false) :
    lookup ctx root here n.schema f.name = some <$> resolve ctx root here n.schema f.name := by
  rw [resolve_of_mem ctx here hf hplain, lookup, Node.target?, n.schema.field?_of_mem hf]
  simp [hplain, readTarget, Value.select?]

theorem perform_map_eq_ok {α β : Type} {g : α → β} {step : Resolution α} {m : Memo} {b : β} :
    (perform (g <$> step) m).1 = .ok b ↔ ∃ a, (perform step m).1 = .ok a ∧ g a = b := by
  rw [map_eq_pure_bind, perform_bind]
  cases perform step m with
  | mk result m' =>
    cases result with
    | error e => simp
    | ok a => simp [perform_pure]

/-- A reference that never has a value, be it that it leads nowhere or that it fails. -/
def NoValue (ctx : Context) (root : Node) (e : String) : Prop :=
  ∀ m v, (perform (resolveReference ctx root e) m).1 ≠ .ok (some v)

theorem noValue_of_unparsed (hparse : Reference.parse? e = none) : NoValue ctx root e := by
  intro m v h
  rw [resolveReference, follow, hparse] at h
  cases h

theorem noValue_of_select (hn : root.at? here = some n) (hchild : n.child? name = none)
    (hparse : Reference.parse? e = some (Reference.ofAddress (here ++ [name]) ++ rest))
    (hnil : rest ≠ []) (htag : ∀ tag, rest ≠ [.tag tag]) : NoValue ctx root e := by
  intro m v h
  rw [resolveReference_eq_select hn hchild hparse] at h
  obtain ⟨v?, -, hv⟩ := perform_map_eq_ok.mp h
  obtain ⟨w, -, hw⟩ := Option.bind_eq_some_iff.mp hv
  obtain ⟨hnil', -⟩ | ⟨tag, _, _, htag', -⟩ := Value.select?_eq_some.mp hw
  · exact hnil hnil'
  · exact htag tag htag'

theorem noValue_of_section (hfits : here.Fits) (hn : root.at? here = some n) :
    NoValue ctx root ("ref:" ++ here.path) := by
  cases here with
  | nil => exact noValue_of_unparsed Reference.parse?_empty
  | cons name rest =>
    intro m v
    have hlocate : root.locate? [] (Reference.ofAddress (name :: rest)) = none := by
      have hdown := Node.locate?_ofAddress hn [] []
      rw [List.append_nil] at hdown
      rw [hdown]
      rfl
    rw [resolveReference, follow, Reference.parse?_ofAddress (List.cons_ne_nil _ _) hfits]
    simp [hlocate, perform_pure]

theorem noValue_of_nested {f : Field} (hfits : (here ++ [f.name]).Fits)
    (hn : root.at? here = some n) (hf : f ∈ n.schema.fields) (hnested : f.kind.isNested = true) :
    NoValue ctx root ("ref:" ++ FieldId.path ⟨here, f.name⟩) := by
  cases hchild : n.child? f.name with
  | some c =>
    have hc : root.at? (here ++ [f.name]) = some c := by
      rw [Node.at?_append, hn, Option.bind_some, Node.at?, hchild]
      rfl
    rw [FieldId.path_eq]
    exact noValue_of_section hfits hc
  | none =>
    intro m v
    rw [resolveReference_eq_lookup hn hchild hfits, lookup, Node.target?,
      n.schema.field?_of_mem hf]
    simp [hnested, perform_pure]

/-- Behind the path of a value there is at most one tag, which is the whole rest. -/
theorem noValue_of_behind (hfits : (here ++ [name]).Fits) (hn : root.at? here = some n)
    (hchild : n.child? name = none) {behind : String}
    (htag : ∀ tag, '.' ∉ behind.toList → behind.toList ≠ (Segment.tag tag).text) :
    NoValue ctx root ("ref:" ++ FieldId.path ⟨here, name⟩ ++ "." ++ behind) := by
  rw [FieldId.path_eq]
  have hne : here ++ [name] ≠ [] := List.concat_ne_nil _ _
  cases hparse : Reference.parse? ("ref:" ++ Address.path (here ++ [name]) ++ "." ++ behind) with
  | none => exact noValue_of_unparsed hparse
  | some r =>
    obtain ⟨rest, rfl, hrest, hparts⟩ := Reference.parse?_behind hne hfits hparse
    refine noValue_of_select hn hchild hparse ?_ fun tag heq => ?_
    · rintro rfl
      exact Text.parts_ne_nil '.' _ hparts
    · have htext : behind.toList = (Segment.tag tag).text := by
        rw [← Text.joinParts_parts '.' behind.toList, hparts, heq]
        rfl
      have hpoint : '.' ∉ behind.toList := by
        rw [htext]
        exact (hrest _ (heq ▸ List.mem_cons_self)).not_mem_text
      exact htag tag hpoint htext

/-! ### References with a value -/

/-- A reference with a value is the path of what the value is selected from, perhaps with a tag. -/
theorem path_of_resolveReference {m : Memo} {v : Value}
    (h : (perform (resolveReference ctx root e) m).1 = .ok (some v)) :
    ∃ here n name w, root.at? here = some n ∧ Node.Denotes n.schema name ∧
      (perform (lookup ctx root here n.schema name) m).1 = .ok (some w) ∧
      (e = "ref:" ++ FieldId.path ⟨here, name⟩ ∧ v = w ∨
        ∃ tag records g, e = "ref:" ++ FieldId.path ⟨here, name⟩ ++ ".[" ++ tag ++ "]" ∧
          w = .geometry records ∧ records.find? (fun g => g.tag.name = tag) = some g ∧
          v = .tuple g.members) := by
  cases hparse : Reference.parse? e with
  | none => exact absurd h (noValue_of_unparsed hparse m v)
  | some r =>
    obtain ⟨-, hfits, hwritten⟩ := Reference.parse?_eq_some.mp hparse
    cases hlocate : root.locate? [] r with
    | none =>
      rw [resolveReference, follow, hparse] at h
      simp only [hlocate] at h
      cases h
    | some t =>
      obtain ⟨here, n, name, rest, rfl, hn, hchild, htarget⟩ := Node.locate?_eq_some hlocate
      rw [resolveReference_eq_select hn hchild hparse] at h
      obtain ⟨v?, hlookup, hv⟩ := perform_map_eq_ok.mp h
      obtain ⟨w, rfl, hw⟩ := Option.bind_eq_some_iff.mp hv
      refine ⟨here, n, name, w, hn, Node.denotes_of_target? htarget, hlookup, ?_⟩
      have hnames : (here ++ [name]).Fits := fun x hx =>
        hfits (.field x) (List.mem_append_left _ (List.mem_map_of_mem hx))
      rw [FieldId.path_eq]
      obtain ⟨rfl, rfl⟩ | ⟨tag, records, g, rfl, rfl, hg, rfl⟩ := Value.select?_eq_some.mp hw
      · rw [List.append_nil, Reference.text_ofAddress hnames] at hwritten
        exact .inl ⟨hwritten, rfl⟩
      · have hne : here ++ [name] ≠ [] := List.concat_ne_nil _ _
        rw [Reference.text_ofAddress_tag hne hnames] at hwritten
        exact .inr ⟨tag, records, g, hwritten, rfl, hg, rfl⟩

end
end Resolution

/-- Where the names of fields can be written between points, references denote the fields of a tree
that hold values, and the side values whose names are not declared. The reference to such a path is
answered like the question for the field or the name, and a reference with a value is such a path or
has one tag behind it, which selects from geometry. References to sections have no value, nor have
references that go on behind a value other than by one tag. -/
theorem references_denote_fields {registry : Registry} {members : Json.Members} {root : Node}
    (hnames : ∀ s ∈ registry.schemas, ∀ f ∈ s.fields, (Segment.field f.name).Fits)
    (hroot : Node.ofDescription registry members = .ok root) (ctx : Context) :
    (∀ here n, root.at? here = some n →
      (∀ f ∈ n.schema.fields, f.kind.isNested = false →
        resolveReference ctx root ("ref:" ++ FieldId.path ⟨here, f.name⟩) =
          some <$> resolve ctx root here n.schema f.name) ∧
      (∀ name ∈ FieldKind.sceneFile.sideNames, n.schema.field? name = none →
        resolveReference ctx root ("ref:" ++ FieldId.path ⟨here, name⟩) =
          lookup ctx root here n.schema name) ∧
      NoValue ctx root ("ref:" ++ here.path) ∧
      (∀ f ∈ n.schema.fields, f.kind.isNested = true →
        NoValue ctx root ("ref:" ++ FieldId.path ⟨here, f.name⟩)) ∧
      ∀ name, Node.Denotes n.schema name → ∀ behind,
        (behind.toList.head? ≠ some '[' →
          NoValue ctx root ("ref:" ++ FieldId.path ⟨here, name⟩ ++ "." ++ behind)) ∧
        ∀ tag, NoValue ctx root
          ("ref:" ++ FieldId.path ⟨here, name⟩ ++ ".[" ++ tag ++ "]." ++ behind)) ∧
    ∀ e m v, (perform (resolveReference ctx root e) m).1 = .ok (some v) →
      ∃ here n name w, root.at? here = some n ∧ Node.Denotes n.schema name ∧
        (perform (lookup ctx root here n.schema name) m).1 = .ok (some w) ∧
        (e = "ref:" ++ FieldId.path ⟨here, name⟩ ∧ v = w ∨
          ∃ tag records g, e = "ref:" ++ FieldId.path ⟨here, name⟩ ++ ".[" ++ tag ++ "]" ∧
            w = .geometry records ∧ records.find? (fun g => g.tag.name = tag) = some g ∧
            v = .tuple g.members) := by
  have hbuilt := Node.built_ofDescription hroot
  refine ⟨fun here n hn => ?_, fun e m v h => path_of_resolveReference h⟩
  have hhere : here.Fits := Node.fits_of_at? hbuilt hnames hn
  have hfields : ∀ f ∈ n.schema.fields, (Segment.field f.name).Fits :=
    hnames _ (hbuilt.of_at? hn).mem_schemas
  refine ⟨fun f hf hplain => ?_, fun name hside hnone => ?_, noValue_of_section hhere hn,
    fun f hf hnested => noValue_of_nested (hhere.concat (hfields f hf)) hn hf hnested,
    fun name hname behind => ?_⟩
  · have hvalue : Node.Denotes n.schema f.name := .field (n.schema.field?_of_mem hf) hplain
    have hchild := hvalue.child?_eq_none hroot hn
    rw [resolveReference_eq_lookup hn hchild (hhere.concat (hfields f hf)),
      lookup_of_field hf hplain]
  · have hvalue : Node.Denotes n.schema name := .side hnone hside
    have hchild := hvalue.child?_eq_none hroot hn
    exact resolveReference_eq_lookup hn hchild (hhere.concat (Node.fits_of_side name hside))
  · have hfits : (here ++ [name]).Fits := hhere.concat (hname.fits hfields)
    have hchild := hname.child?_eq_none hroot hn
    refine ⟨fun hbracket => noValue_of_behind hfits hn hchild fun tag _ htext => ?_, fun tag => ?_⟩
    · rw [htext] at hbracket
      exact hbracket rfl
    · have hbehind : "ref:" ++ FieldId.path ⟨here, name⟩ ++ ".[" ++ tag ++ "]." ++ behind =
          "ref:" ++ FieldId.path ⟨here, name⟩ ++ "." ++ ("[" ++ tag ++ "]." ++ behind) := by
        rw [← String.toList_inj]
        simp [String.toList_append]
      rw [hbehind]
      refine noValue_of_behind hfits hn hchild fun _ hpoint _ => hpoint ?_
      simp [String.toList_append]

namespace Tagged

def scene : Json.Members := [("file", .string "hall")]

def members : Json.Members := [("scene", .object scene)]

def tree : Node := ⟨.root, none, members, [("scene", ⟨.scene, none, scene, []⟩)]⟩

def surroundings : Context :=
  ⟨.standard, none, fun _ => .ok [Geometry.height 480, Geometry.width 640, Geometry.width 1]⟩

theorem names_fit : ∀ s ∈ Registry.standard.schemas, ∀ f ∈ s.fields,
    (Segment.field f.name).Fits := by
  decide

theorem tree_of_members : Node.ofDescription .standard members = .ok tree := by cbv

theorem resolve_width : (perform (resolveReference surroundings tree
    "ref:scene.geometry.[width]") .empty).1 = .ok (some (.tuple [640])) := by
  cbv

end Tagged

open Tagged in
theorem references_denote_fields_width :
    (∀ s ∈ Registry.standard.schemas, ∀ f ∈ s.fields, (Segment.field f.name).Fits) ∧
      Node.ofDescription .standard members = .ok tree ∧
      resolveReference surroundings tree "ref:scene.file" =
        some <$> resolve surroundings tree ["scene"] .scene "file" ∧
      resolveReference surroundings tree "ref:scene.geometry" =
        lookup surroundings tree ["scene"] .scene "geometry" ∧
      NoValue surroundings tree "ref:scene" ∧ NoValue surroundings tree "ref:scene.file.name" ∧
      NoValue surroundings tree "ref:scene.geometry.[width].[width]" ∧
      (perform (resolveReference surroundings tree "ref:scene.geometry.[width]") .empty).1 =
        .ok (some (.tuple [640])) ∧
      ∃ here n name w, tree.at? here = some n ∧ Node.Denotes n.schema name ∧
        (perform (lookup surroundings tree here n.schema name) .empty).1 = .ok (some w) := by
  obtain ⟨hforward, hconverse⟩ :=
    references_denote_fields names_fit tree_of_members surroundings
  obtain ⟨hfields, hsides, hsection, -, hbehind⟩ := hforward ["scene"] _ rfl
  have hfile : Node.Denotes Schema.scene "file" :=
    .field (f := ⟨"file", .sceneFile, none, .sceneFile Coordinate.sceneFile.element⟩) rfl rfl
  have hgeometry : Node.Denotes Schema.scene "geometry" := .side rfl (by decide)
  obtain ⟨here, n, name, w, hn, hname, hlookup, -⟩ := hconverse _ _ _ resolve_width
  exact ⟨names_fit, tree_of_members, hfields _ (List.mem_cons_self) rfl,
    hsides "geometry" (by decide) rfl, hsection, (hbehind "file" hfile "name").1 (by decide),
    (hbehind "geometry" hgeometry "[width]").2 "width", resolve_width, here, n, name, w, hn, hname,
    hlookup⟩

end CrowdScenario

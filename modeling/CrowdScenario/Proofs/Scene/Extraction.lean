import CrowdScenario.Proofs.Scene.Numbers

/-!
# Elements and records

One visit adds the record of an element, if it stands for something, and keeps the dimensions once
they are known. So the records of a document are those of its elements, sorted by what they stand
for and otherwise in the order of the document (`Scene.extraction_sorts`), and the first defect of
an element ends the extraction.
-/

namespace CrowdScenario

open Xml (Attribute Tag)

namespace Scene

def elementName : GeometryTag → String
  | .width | .height => "svg"
  | .panicSource => "circle"
  | .wall => "line"
  | .spawnArea | .targetArea => "rect"

/-- What a shape with a name and attributes stands for. -/
def standsFor? (name : String) (attributes : List Attribute) : Option GeometryTag :=
  Finds.groupOrder.find? fun tag =>
    name = elementName tag ∧ attributes.lookup classAttribute = some tag.name

def isLast (attributes : List Attribute) : Bool :=
  (attributes.lookup "x_csim_last").any fun value => Text.trim value.toList = "true".toList

def cornerMembers (attributes : List Attribute) : List Int64 :=
  let c := exactCorners attributes
  [c.x0, c.y0, c.x1, c.y1]

def members (attributes : List Attribute) (tag : GeometryTag) : List Int64 :=
  let n := member attributes
  match tag with
  | .width => [n "width"]
  | .height => [n "height"]
  | .panicSource => [n "cx", n "cy", n "r", n "x_csim_power"]
  | .wall => [n "x1", n "y1", n "x2", n "y2"]
  | .spawnArea => cornerMembers attributes ++ [n "x_csim_id"]
  | .targetArea => cornerMembers attributes ++
      [n "x_csim_id", Geometry.packSequence (n "x_csim_seq_no") (isLast attributes)]

theorem length_members (attributes : List Attribute) (tag : GeometryTag) :
    (members attributes tag).length = tag.arity := by
  cases tag <;> rfl

def overflow? (attributes : List Attribute) : Option SceneDefect :=
  if ¬Fits (number attributes "x" + number attributes "width") then some (.overflow "x" "width")
  else if ¬Fits (number attributes "y" + number attributes "height") then
    some (.overflow "y" "height")
  else none

theorem rectangleCorners_eq (attributes : List Attribute) :
    rectangleCorners attributes = match overflow? attributes with
      | some e => .error e
      | none => .ok (exactCorners attributes) := by
  unfold overflow?
  by_cases hx : Fits (number attributes "x" + number attributes "width")
  · by_cases hy : Fits (number attributes "y" + number attributes "height")
    · simp [rectangleCorners_of_fits hx hy, hx, hy]
    · simp [rectangleCorners_of_tall hx hy, hx, hy]
  · simp [rectangleCorners_of_wide hx, hx]

def shapeDefect? (name : String) (attributes : List Attribute) : Option SceneDefect :=
  match standsFor? name attributes with
  | some .spawnArea | some .targetArea => overflow? attributes
  | _ => none

section
variable {name : String} {attributes : List Attribute}

theorem standsFor?_of_class {tag : GeometryTag} (htag : tag ∈ Finds.groupOrder)
    (hname : name = elementName tag)
    (hclass : attributes.lookup classAttribute = some tag.name) :
    standsFor? name attributes = some tag := by
  have hfound : ∀ tag ∈ Finds.groupOrder, (Finds.groupOrder.find? fun tag' =>
      elementName tag = elementName tag' ∧ some tag.name = some tag'.name) = some tag := by decide
  rw [standsFor?, hclass, hname]
  exact hfound tag htag

theorem standsFor?_eq_none
    (h : ∀ tag ∈ Finds.groupOrder, name = elementName tag →
      attributes.lookup classAttribute ≠ some tag.name) :
    standsFor? name attributes = none := by
  rw [standsFor?, List.find?_eq_none]
  intro tag htag hstands
  rw [decide_eq_true_eq] at hstands
  exact h tag htag hstands.1 hstands.2

theorem shape?_eq (name : String) (attributes : List Attribute) :
    shape? name attributes = match shapeDefect? name attributes with
      | some e => .error e
      | none => .ok ((standsFor? name attributes).map fun tag => ⟨tag, members attributes tag⟩) := by
  unfold shape? shapeDefect?
  split
  · next hclass =>
    have hstands : standsFor? "circle" attributes = some .panicSource :=
      standsFor?_of_class (by decide) rfl hclass
    rw [hstands]
    rfl
  · next hclass =>
    have hstands : standsFor? "line" attributes = some .wall :=
      standsFor?_of_class (by decide) rfl hclass
    rw [hstands]
    rfl
  · next hclass =>
    have hstands : standsFor? "rect" attributes = some .spawnArea :=
      standsFor?_of_class (by decide) rfl hclass
    rw [hstands, rectangleCorners_eq]
    cases overflow? attributes <;> rfl
  · next hclass =>
    have hstands : standsFor? "rect" attributes = some .targetArea :=
      standsFor?_of_class (by decide) rfl hclass
    rw [hstands, rectangleCorners_eq]
    cases overflow? attributes <;> rfl
  · next hpanic hwall hspawn htarget =>
    rw [standsFor?_eq_none]
    · rfl
    · intro tag htag hname hclass
      simp only [Finds.groupOrder, List.mem_cons, List.not_mem_nil, or_false] at htag
      rcases htag with rfl | rfl | rfl | rfl
      · exact hpanic hname hclass
      · exact hwall hname hclass
      · exact hspawn hname hclass
      · exact htarget hname hclass

end

end Scene

open Scene

namespace Xml.Tag

def stands? (t : Tag) : Option GeometryTag := t.attributes?.bind (standsFor? t.localName)

def geometry (t : Tag) (tag : GeometryTag) : Geometry := ⟨tag, members (t.attributes?.getD []) tag⟩

def record? (t : Tag) : Option Geometry := t.stands?.map t.geometry

/-- Attributes that cannot be read, or a rectangle that stands for something and does not fit. -/
def defect? (t : Tag) : Option SceneDefect :=
  match t.attributes? with
  | none => some .markup
  | some attributes => shapeDefect? t.localName attributes

def isRoot (t : Tag) : Bool := t.localName = "svg"

def extent (t : Tag) : Int64 × Int64 :=
  let n := member (t.attributes?.getD [])
  (n "width", n "height")

theorem record?_of_attributes {t : Tag} {attributes : List Attribute}
    (h : t.attributes? = some attributes) :
    t.record? =
      (standsFor? t.localName attributes).map fun tag => ⟨tag, members attributes tag⟩ := by
  have hgeometry : t.geometry = fun tag => ⟨tag, members attributes tag⟩ := by
    funext tag
    rw [geometry, h]
    rfl
  rw [record?, stands?, h, hgeometry]
  rfl

theorem standsFor?_of_isRoot {t : Tag} (h : t.isRoot = true) (attributes : List Attribute) :
    standsFor? t.localName attributes = none := by
  have hname : t.localName = "svg" := of_decide_eq_true h
  have hother : ∀ tag ∈ Finds.groupOrder, "svg" ≠ elementName tag := by decide
  rw [hname]
  exact standsFor?_eq_none fun tag htag heq => absurd heq (hother tag htag)

theorem stands?_of_isRoot {t : Tag} (h : t.isRoot = true) : t.stands? = none :=
  Option.bind_eq_none_iff.mpr fun attributes _ => standsFor?_of_isRoot h attributes

end Xml.Tag

namespace Scene.Finds

def after (tags : List Tag) : Finds where
  dimensions := (tags.find? Tag.isRoot).map Tag.extent
  shapes := (tags.filterMap Tag.record?).reverse

theorem after_concat (tags : List Tag) (t : Tag) :
    after (tags ++ [t]) = {
      dimensions := (after tags).dimensions.or (if t.isRoot then some t.extent else none)
      shapes := t.record?.toList ++ (after tags).shapes } := by
  unfold after
  rw [List.find?_append, List.filterMap_append, List.reverse_append]
  congr 1
  · cases tags.find? Tag.isRoot with
    | some r => rfl
    | none => cases h : t.isRoot <;> simp [h]
  · cases h : t.record? <;> simp [h]

/-- A visit stops at a defect, and otherwise finds what there is to find in the element. -/
theorem visit_after (tags : List Tag) (t : Tag) :
    (after tags).visit t = match t.defect? with
      | some e => .error e
      | none => .ok (after (tags ++ [t])) := by
  unfold visit Tag.defect?
  rw [after_concat]
  generalize after tags = f
  cases hattributes : t.attributes? with
  | none => rfl
  | some attributes =>
    have hrecord := Tag.record?_of_attributes hattributes
    have hextent : t.extent = (member attributes "width", member attributes "height") := by
      rw [Tag.extent, hattributes]
      rfl
    -- A root stands for nothing, so it gives the dimensions or a record, never both.
    cases hroot : t.isRoot with
    | true =>
      have hname : t.localName = "svg" := of_decide_eq_true hroot
      have hstands := Tag.standsFor?_of_isRoot hroot attributes
      rw [hstands] at hrecord
      rw [hname] at hstands
      simp only [shape?_eq, shapeDefect?, hstands, hrecord, hextent, hname]
      cases hdimensions : f.dimensions with
      | none => rfl
      | some size =>
        simp
        rw [← hdimensions]
    | false =>
      have hname : t.localName ≠ "svg" := of_decide_eq_false hroot
      simp only [shape?_eq, hrecord, hname, false_and, ↓reduceIte]
      cases shapeDefect? t.localName attributes with
      | some e => rfl
      | none => cases standsFor? t.localName attributes <;> simp

theorem foldlM_visit_after (before : List Tag) {tags : List Tag}
    (h : ∀ t ∈ tags, t.defect? = none) :
    tags.foldlM visit (after before) = .ok (after (before ++ tags)) := by
  induction tags generalizing before with
  | nil =>
    rw [List.append_nil]
    rfl
  | cons t tags ih =>
    obtain ⟨ht, htags⟩ := List.forall_mem_cons.mp h
    have hvisit : (after before).visit t = .ok (after (before ++ [t])) := by
      rw [visit_after, ht]
    rw [List.foldlM_cons, hvisit]
    have hrest := ih (before ++ [t]) htags
    rwa [List.append_assoc] at hrest

theorem foldlM_visit {tags : List Tag} (h : ∀ t ∈ tags, t.defect? = none) :
    tags.foldlM visit start = .ok (after tags) :=
  foldlM_visit_after [] h

theorem foldlM_visit_of_defect {before : List Tag} (h : ∀ s ∈ before, s.defect? = none) {t : Tag}
    {e : SceneDefect} (ht : t.defect? = some e) (behind : List Tag) :
    (before ++ t :: behind).foldlM visit start = .error e := by
  have hvisit : (after before).visit t = .error e := by
    rw [visit_after, ht]
  rw [List.foldlM_append, foldlM_visit h]
  exact congrArg (· >>= fun f => behind.foldlM visit f) hvisit

theorem group_after (tags : List Tag) (tag : GeometryTag) :
    (after tags).group tag =
      (tags.filter (·.stands? = some tag)).map (·.geometry tag) := by
  rw [group, after, List.filter_reverse, List.reverse_reverse]
  induction tags with
  | nil => rfl
  | cons t tags ih =>
    cases hstands : t.stands? with
    | none =>
      have hrecord : t.record? = none := by rw [Tag.record?, hstands]; rfl
      simpa [hrecord, hstands] using ih
    | some tag' =>
      have hrecord : t.record? = some (t.geometry tag') := by rw [Tag.record?, hstands]; rfl
      have htag : (t.geometry tag').tag = tag' := rfl
      by_cases heq : tag' = tag
      · subst heq
        simpa [hrecord, hstands, htag] using ih
      · simpa [hrecord, hstands, htag, heq] using ih

end Scene.Finds

/-! ### Documents -/

namespace Scene

open Finds

def sorted (tags : List Tag) (root : Tag) : List Geometry :=
  root.geometry .width :: root.geometry .height ::
    groupOrder.flatMap fun tag => (tags.filter (·.stands? = some tag)).map (·.geometry tag)

theorem ofReading_of_sound (path : String) {tags : List Tag} (h : ∀ t ∈ tags, t.defect? = none) :
    ofReading path ⟨tags, false⟩ = match tags.find? Tag.isRoot with
      | some root => .ok (sorted tags root)
      | none => .error (.missingRoot path) := by
  have hgroup : (after tags).group = fun tag =>
      (tags.filter (·.stands? = some tag)).map (·.geometry tag) := funext (group_after tags)
  have hdimensions : (after tags).dimensions = (tags.find? Tag.isRoot).map Tag.extent := rfl
  rw [ofReading, foldlM_visit h]
  simp only [records?, hgroup, hdimensions]
  cases tags.find? Tag.isRoot <;> rfl

/-- A change of a document that concerns no two shapes of one kind: two neighbours that stand for
different things trade places, or an element that stands for nothing comes in. -/
inductive Rearranged : List Tag → List Tag → Prop
  | past (before behind : List Tag) {s t : Tag} (h : s.stands? ≠ t.stands?) :
    Rearranged (before ++ s :: t :: behind) (before ++ t :: s :: behind)
  | idle (before behind : List Tag) {t : Tag} (hsound : t.defect? = none)
    (hstands : t.stands? = none) (hroot : t.isRoot = true → ∃ r ∈ before, r.isRoot = true) :
    Rearranged (before ++ behind) (before ++ t :: behind)

/-- Whether documents agree in everything that is read from them. -/
structure SameScene (tags tags' : List Tag) : Prop where
  sound : (∀ t ∈ tags, t.defect? = none) ↔ ∀ t ∈ tags', t.defect? = none
  root : tags.find? Tag.isRoot = tags'.find? Tag.isRoot
  shapes : ∀ tag, tags.filter (·.stands? = some tag) = tags'.filter (·.stands? = some tag)

theorem Rearranged.sameScene {tags tags' : List Tag} (h : Rearranged tags tags') :
    SameScene tags tags' := by
  cases h with
  | @past before behind s t hother =>
    -- Two roots would both stand for nothing.
    have hroot : s.isRoot = true → t.isRoot = false := by
      intro hs
      rw [Bool.eq_false_iff]
      intro ht
      exact hother ((Tag.stands?_of_isRoot hs).trans (Tag.stands?_of_isRoot ht).symm)
    refine ⟨?_, ?_, fun tag => ?_⟩
    · simp only [List.forall_mem_append, List.forall_mem_cons]
      tauto
    · rw [List.find?_append, List.find?_append]
      congr 1
      cases hs : s.isRoot with
      | true => simp [hs, hroot hs]
      | false => cases ht : t.isRoot <;> simp [hs, ht]
    · rw [List.filter_append, List.filter_append]
      congr 1
      by_cases hs : s.stands? = some tag
      · have ht : t.stands? ≠ some tag := fun heq => hother (hs.trans heq.symm)
        simp [hs, ht]
      · by_cases ht : t.stands? = some tag <;> simp [hs, ht]
  | @idle before behind t hsound hstands hroot =>
    refine ⟨?_, ?_, fun tag => ?_⟩
    · simp only [List.forall_mem_append, List.forall_mem_cons]
      tauto
    · rw [List.find?_append, List.find?_append]
      cases hbefore : before.find? Tag.isRoot with
      | some r => rfl
      | none =>
        -- A root that comes in has another root before it.
        have ht : t.isRoot = false := by
          rw [Bool.eq_false_iff]
          intro ht
          obtain ⟨r, hr, hr'⟩ := hroot ht
          exact List.find?_eq_none.mp hbefore r hr hr'
        simp [ht]
    · simp [hstands]

theorem sameScene_of_rearranged {tags tags' : List Tag}
    (h : Relation.EqvGen Rearranged tags tags') : SameScene tags tags' := by
  induction h with
  | rel _ _ h => exact h.sameScene
  | refl _ => exact ⟨Iff.rfl, rfl, fun _ => rfl⟩
  | symm _ _ _ ih => exact ⟨ih.sound.symm, ih.root.symm, fun tag => (ih.shapes tag).symm⟩
  | trans _ _ _ _ _ ih ih' =>
    exact ⟨ih.sound.trans ih'.sound, ih.root.trans ih'.root,
      fun tag => (ih.shapes tag).trans (ih'.shapes tag)⟩

/-- Without defects, a document with a root becomes the dimensions of its first root and one record
for every shape, sorted by what the shapes stand for and within one kind in the order of the
document. So shapes of different kinds may trade places, and elements that stand for nothing may
come or go. Without a root there is no scene, and the first defect is what a document is refused
for. -/
theorem extraction_sorts (path : String) (tags : List Tag) :
    ((∀ t ∈ tags, t.defect? = none) →
      (∀ root, tags.find? Tag.isRoot = some root →
        ofReading path ⟨tags, false⟩ = .ok (root.geometry .width :: root.geometry .height ::
          groupOrder.flatMap fun tag =>
            (tags.filter (·.stands? = some tag)).map (·.geometry tag))) ∧
      ((∀ t ∈ tags, t.isRoot = false) → ofReading path ⟨tags, false⟩ = .error (.missingRoot path)) ∧
      ∀ tags', Relation.EqvGen Rearranged tags tags' →
        ofReading path ⟨tags', false⟩ = ofReading path ⟨tags, false⟩) ∧
    (∀ (t : Tag) tag, (t.geometry tag).tag = tag ∧ (t.geometry tag).members.length = tag.arity) ∧
    ∀ before t behind isDefective e, tags = before ++ t :: behind →
      (∀ s ∈ before, s.defect? = none) → t.defect? = some e →
      ofReading path ⟨tags, isDefective⟩ = .error (.malformed path e) := by
  refine ⟨fun hsound => ⟨fun root hroot => ?_, fun hnone => ?_, fun tags' h => ?_⟩,
    fun t tag => ⟨rfl, length_members _ tag⟩, ?_⟩
  · rw [ofReading_of_sound path hsound, hroot]
    rfl
  · have hfind : tags.find? Tag.isRoot = none :=
      List.find?_eq_none.mpr fun t ht => Bool.not_eq_true _ ▸ hnone t ht
    rw [ofReading_of_sound path hsound, hfind]
  · have hsame := sameScene_of_rearranged h
    have hsorted : sorted tags' = sorted tags := by
      funext root
      simp only [sorted, hsame.shapes]
    rw [ofReading_of_sound path hsound, ofReading_of_sound path (hsame.sound.mp hsound), hsame.root,
      hsorted]
  · rintro before t behind isDefective e rfl hbefore ht
    rw [ofReading, foldlM_visit_of_defect hbefore ht]

namespace Ahead

/-- A wall and an idle line before the root, and a source of panic inside it. -/
def text : String :=
  "<line x_csim_class='wall' x1='1'/><line x1='3'/><s:svg width='5'>" ++
    "<circle x_csim_class='panic-source' cx='2'/></s:svg>"

def wall : Tag := ⟨"line", " x_csim_class='wall' x1='1'".toList⟩

def line : Tag := ⟨"line", " x1='3'".toList⟩

def root : Tag := ⟨"s:svg", " width='5'".toList⟩

def source : Tag := ⟨"circle", " x_csim_class='panic-source' cx='2'".toList⟩

theorem read_text : Xml.read text.toList = ⟨[wall, line, root, source], false⟩ := by cbv

theorem attributes_wall : wall.attributes? = some [("x_csim_class", "wall"), ("x1", "1")] := by
  cbv

theorem attributes_line : line.attributes? = some [("x1", "3")] := by cbv

theorem attributes_root : root.attributes? = some [("width", "5")] := by cbv

theorem attributes_source :
    source.attributes? = some [("x_csim_class", "panic-source"), ("cx", "2")] := by cbv

theorem sound : ∀ t ∈ [wall, line, root, source], t.defect? = none := by
  simp only [List.forall_mem_cons, Tag.defect?, attributes_wall, attributes_line, attributes_root,
    attributes_source]
  exact ⟨rfl, rfl, rfl, rfl, nofun⟩

theorem stands_wall : wall.stands? = some .wall := by
  rw [Tag.stands?, attributes_wall]
  rfl

theorem stands_line : line.stands? = none := by
  rw [Tag.stands?, attributes_line]
  rfl

theorem stands_root : root.stands? = none := by
  rw [Tag.stands?, attributes_root]
  rfl

theorem stands_source : source.stands? = some .panicSource := by
  rw [Tag.stands?, attributes_source]
  rfl

theorem rearranged : Rearranged [wall, line, root, source] [wall, line, source, root] := by
  have hother : root.stands? ≠ source.stands? := by
    rw [stands_root, stands_source]
    exact nofun
  exact .past [wall, line] [] hother

end Ahead

open Ahead in
theorem extraction_sorts_ahead :
    (∀ t ∈ [wall, line, root, source], t.defect? = none) ∧
      parse "hall" text = .ok [.width 5, .height 0, .panicSource 2 0 0 0, .wall 1 0 0 0] ∧
      ofReading "hall" ⟨[wall, line, source, root], false⟩ = parse "hall" text := by
  obtain ⟨hall, -, -⟩ := extraction_sorts "hall" [wall, line, root, source]
  obtain ⟨hsorted, -, hsame⟩ := hall sound
  have hroot : [wall, line, root, source].find? Tag.isRoot = some root := by decide
  have hparse : parse "hall" text = ofReading "hall" ⟨[wall, line, root, source], false⟩ := by
    rw [parse, read_text]
  have hwidth : root.geometry .width = .width 5 := by
    rw [Tag.geometry, attributes_root]
    rfl
  have hheight : root.geometry .height = .height 0 := by
    rw [Tag.geometry, attributes_root]
    rfl
  have hsource : source.geometry .panicSource = .panicSource 2 0 0 0 := by
    rw [Tag.geometry, attributes_source]
    rfl
  have hwall : wall.geometry .wall = .wall 1 0 0 0 := by
    rw [Tag.geometry, attributes_wall]
    rfl
  refine ⟨sound, ?_, ?_⟩
  · rw [hparse, hsorted root hroot]
    simp [groupOrder, stands_wall, stands_line, stands_root, stands_source, hwidth, hheight,
      hsource, hwall]
  · rw [hparse]
    exact hsame _ (.rel _ _ rearranged)

end Scene

end CrowdScenario

import CrowdScenario.Command.Outcome
import CrowdScenario.Proofs.Json.Printing

/-!
# What the JSON of a document tells apart

A number that is not finite is printed as null. So no distribution with such a number is read back
from its JSON, whatever the reader of doubles is, and any other one is where the reader finds the
doubles that were printed. Two documents are printed alike only if their distributions agree but for
numbers that are not finite (`Distribution.json_faithful`).
-/

namespace CrowdScenario

open Json

/-- Whether two doubles have the same JSON. -/
def Binary64.Indistinct (x y : Binary64) : Prop := x = y ∨ x.isFinite = false ∧ y.isFinite = false

theorem tree_ofBinary64 (x : Binary64) : tree (.ofBinary64 x) = numberTree x := by
  unfold Json.ofBinary64 numberTree
  split
  · next h => rw [tree, numberTree, if_pos h]
  · rfl

theorem numberTree_eq_iff {x y : Binary64} : numberTree x = numberTree y ↔ x.Indistinct y := by
  unfold numberTree Binary64.Indistinct
  cases hx : x.isFinite <;> cases hy : y.isFinite <;> simp
  · rintro rfl
    rw [hx] at hy
    cases hy
  · rintro rfl
    rw [hx] at hy
    cases hy
  · refine ⟨fun h => ?_, fun h => by rw [h]⟩
    have hvalue := Pieces.nearest?_ofFloat hx
    rw [h, Pieces.nearest?_ofFloat hy] at hvalue
    cases hvalue
    rfl

theorem Binary64.Indistinct.ofBinary64_eq {x y : Binary64} (h : x.Indistinct y) :
    Json.ofBinary64 x = .ofBinary64 y := by
  rcases h with rfl | ⟨hx, hy⟩
  · rfl
  · rw [Json.ofBinary64, Json.ofBinary64, hx, hy]
    rfl

section
variable [DoubleReader]

/-- What the number that is printed for a double is read as. There is none for null. -/
def Binary64.reread? (x : Binary64) : Option Binary64 :=
  if x.isFinite then DoubleReader.double? (Pieces.ofFloat x).number else none

theorem Binary64.reread?_of_not_finite {x : Binary64} (h : x.isFinite = false) :
    x.reread? = none := by
  rw [reread?, h]
  rfl

theorem value?_numberTree {x y : Binary64} (h : x.reread? = some y) (depth : ℕ) :
    (numberTree x).value? depth = some (.float y) := by
  unfold Binary64.reread? at h
  split at h
  · next hx =>
    rw [numberTree, if_pos hx, Written.value?, NumberText.value?, Pieces.integer?_ofFloat hx]
    exact Option.map_eq_some_iff.mpr ⟨y, h, rfl⟩
  · cases h

theorem float?_numberTree (x : Binary64) : (numberTree x).float? = x.reread? := by
  unfold numberTree Binary64.reread?
  split
  · next hx => rw [Written.float?, Pieces.integer?_ofFloat hx]
  · rfl

end

theorem reread?_of_rounding (x : Binary64) :
    @Binary64.reread? NumberText.rounding x = if x.isFinite then some x else none := by
  unfold Binary64.reread?
  split
  · next h => exact Pieces.nearest?_ofFloat h
  · rfl

theorem DistributionKind.ofName?_name (k : DistributionKind) : ofName? k.name = some k := by
  cases k <;> decide

namespace Distribution

def Indistinct (d d' : Distribution) : Prop :=
  d.kind = d'.kind ∧ d.first.Indistinct d'.first ∧ d.second.Indistinct d'.second

theorem tree_toJson (d : Distribution) :
    tree d.toJson = .object [(some kindMember, .string (some d.kind.name)),
      (some d.kind.firstName, numberTree d.first),
      (some d.kind.secondName, numberTree d.second)] := by
  simp only [toJson, DistributionKind.toJson, tree, memberTrees, tree_ofBinary64]

theorem Indistinct.toJson_eq {d d' : Distribution} (h : d.Indistinct d') :
    d.toJson = d'.toJson := by
  obtain ⟨hkind, hfirst, hsecond⟩ := h
  rw [toJson, toJson, hkind, hfirst.ofBinary64_eq, hsecond.ofBinary64_eq]

theorem tree_toJson_eq_iff {d d' : Distribution} :
    tree d.toJson = tree d'.toJson ↔ d.Indistinct d' := by
  constructor
  · intro h
    rw [tree_toJson, tree_toJson] at h
    simp only [Written.object.injEq, List.cons.injEq, Prod.mk.injEq, Written.string.injEq,
      Option.some.injEq, true_and, and_true] at h
    obtain ⟨hname, ⟨-, hfirst⟩, -, hsecond⟩ := h
    have hkind := DistributionKind.ofName?_name d.kind
    rw [hname, DistributionKind.ofName?_name] at hkind
    exact ⟨(Option.some.inj hkind).symm, numberTree_eq_iff.mp hfirst, numberTree_eq_iff.mp hsecond⟩
  · intro h
    rw [h.toJson_eq]

theorem fields?_members (k : DistributionKind) (w w' : Written) :
    let members : List (Label × Written) := [(some kindMember, .string (some k.name)),
      (some k.firstName, w), (some k.secondName, w')]
    (Written.object members).fields? [kindMember] = some [some (.string (some k.name))] ∧
      (Written.object members).fields? [k.firstName, k.secondName] = some [some w, some w'] := by
  cases k <;> exact ⟨rfl, rfl⟩

theorem withNumbers?_numberTree [DoubleReader] (kind : DistributionKind) (x y : Binary64) :
    withNumbers? kind [some (numberTree x), some (numberTree y)] =
      x.reread?.bind fun first => y.reread?.map (Distribution.mk kind first) := by
  simp only [withNumbers?, float?_numberTree]
  cases x.reread? with
  | none => rfl
  | some first => cases y.reread? <;> rfl

theorem value?_tree [DoubleReader] {d d' : Distribution}
    (h : (d.first.reread?.bind fun first => d.second.reread?.map (Distribution.mk d.kind first)) =
      some d') : ∃ v, (tree d.toJson).value? Written.deepest = some v := by
  obtain ⟨first, hfirst, hrest⟩ := Option.bind_eq_some_iff.mp h
  obtain ⟨second, hsecond, -⟩ := Option.map_eq_some_iff.mp hrest
  rw [tree_toJson]
  simp [Written.deepest, Written.value?, Written.memberValues?, value?_numberTree hfirst,
    value?_numberTree hsecond]

theorem ofWritten?_tree [DoubleReader] (d : Distribution) :
    ofWritten? (tree d.toJson) =
      d.first.reread?.bind fun first => d.second.reread?.map (Distribution.mk d.kind first) := by
  obtain ⟨htag, hnumbers⟩ := fields?_members d.kind (numberTree d.first) (numberTree d.second)
  have hread : ofWritten? (tree d.toJson) =
      ((tree d.toJson).value? Written.deepest).bind fun _ =>
        withNumbers? d.kind [some (numberTree d.first), some (numberTree d.second)] := by
    rw [tree_toJson]
    simp only [ofWritten?, Option.bind_eq_bind, htag, hnumbers, kind?, Option.bind_some,
      DistributionKind.ofName?_name]
  rw [hread, withNumbers?_numberTree]
  cases hnumbers : d.first.reread?.bind fun first => d.second.reread?.map (mk d.kind first) with
  | none => exact Option.bind_fun_none _
  | some d' =>
    obtain ⟨v, hv⟩ := value?_tree hnumbers
    rw [hv]
    rfl

end Distribution

theorem Section.title_inj {s s' : Section} (h : s.title = s'.title) : s = s' := by
  cases s <;> cases s' <;> first | rfl | simp [title] at h

theorem Json.Pieces.number_ofInt_inj {n n' : ℤ}
    (h : (Pieces.ofInt n).number = (Pieces.ofInt n').number) : n = n' := by
  simp only [number, ofInt, NumberText.mk.injEq, List.append_nil, Text.digitsValue_toDigits] at h
  obtain ⟨hnegative, hdigits, -⟩ := h
  rw [decide_eq_decide] at hnegative
  omega

/-- The JSON of a distribution record is that of no other record. -/
theorem Record.tree_distribution_eq_iff {c : Coordinate} {d : Distribution} {r : Record} :
    tree (Record.distribution c d).toJson = tree r.toJson ↔
      ∃ d', r = .distribution c d' ∧ d.Indistinct d' := by
  cases r with
  | distribution c' d' =>
    obtain ⟨owner, element⟩ := c
    obtain ⟨owner', element'⟩ := c'
    simp only [toJson, contentMembers, Section.toJson, tree, memberTrees, Written.object.injEq,
      List.cons.injEq, Prod.mk.injEq, Written.string.injEq, Written.number.injEq, Option.some.injEq,
      true_and, and_true, Distribution.tree_toJson_eq_iff, Record.distribution.injEq,
      Coordinate.mk.injEq]
    constructor
    · rintro ⟨-, howner, helement, hvalue⟩
      have hnat := Pieces.number_ofInt_inj helement
      refine ⟨d', ⟨⟨(Section.title_inj howner).symm, ?_⟩, rfl⟩, hvalue⟩
      exact UInt16.toNat_inj.mp (by omega)
    · rintro ⟨d'', ⟨⟨rfl, rfl⟩, rfl⟩, hvalue⟩
      exact ⟨rfl, rfl, rfl, hvalue⟩
  | _ => simp [toJson, contentMembers, kindName, tree, memberTrees]

theorem Document.tree_toJson (doc : Document) :
    tree doc.toJson = .object [(some "simulation_type", .string (some doc.simulation.name)),
      (some "records", .array (doc.records.map fun r => tree r.toJson))] := by
  simp only [toJson, Simulation.toJson, tree, memberTrees, trees_eq_map, List.map_map,
    Function.comp_def]

/-- The numbers of a distribution are read back from its JSON as the reader of doubles reads what was
printed for them, and a distribution with a number that is not finite is refused. Correct rounding
finds every finite double again. The record of a distribution is printed as that of another just where
they differ only in numbers that are not finite, and a document that is printed as the one with the
record has such a record at the same place. -/
theorem Distribution.json_faithful [DoubleReader] (d : Distribution) :
    (Written.parse? d.toJson.compact).bind ofWritten? =
        (d.first.reread?.bind fun first => d.second.reread?.map (Distribution.mk d.kind first)) ∧
    (∀ x, @Binary64.reread? NumberText.rounding x = if x.isFinite then some x else none) ∧
    (d.first.isFinite = false ∨ d.second.isFinite = false →
      (Written.parse? d.toJson.compact).bind ofWritten? = none) ∧
    (∀ (depth : ℕ) (c c' : Coordinate) (d' : Distribution),
      (Record.distribution c d).toJson.spread depth =
        (Record.distribution c' d').toJson.spread depth ↔ c = c' ∧ d.Indistinct d') ∧
    ∀ doc doc' : Document, Command.inspection true doc = Command.inspection true doc' →
      ∀ (i : ℕ) (c : Coordinate), doc.records[i]? = some (.distribution c d) →
        ∃ d', doc'.records[i]? = some (.distribution c d') ∧ d.Indistinct d' := by
  have hread : (Written.parse? d.toJson.compact).bind ofWritten? =
      d.first.reread?.bind fun first => d.second.reread?.map (Distribution.mk d.kind first) := by
    rw [parse?_compact, Option.bind_some, ofWritten?_tree]
  refine ⟨hread, reread?_of_rounding, fun hinfinite => ?_,
    fun depth c c' d' => ⟨fun h => ?_, ?_⟩, fun doc doc' h i c hd => ?_⟩
  · rw [hread]
    rcases hinfinite with hfirst | hsecond
    · rw [Binary64.reread?_of_not_finite hfirst]
      rfl
    · rw [Binary64.reread?_of_not_finite hsecond]
      exact Option.bind_fun_none _
  · -- Equal texts are parsed alike, so the records have one tree.
    have htree := parse?_spread depth (Record.distribution c d).toJson
    rw [h, parse?_spread] at htree
    obtain ⟨d'', heq, hsame⟩ :=
      Record.tree_distribution_eq_iff.mp (Option.some.inj htree).symm
    cases heq
    exact ⟨rfl, hsame⟩
  · rintro ⟨rfl, hsame⟩
    rw [Record.toJson, Record.toJson, Record.contentMembers, Record.contentMembers, hsame.toJson_eq]
    rfl
  · have htext : doc.toJson.spread 0 = doc'.toJson.spread 0 := (String.append_left_inj _).mp h
    have htree := parse?_spread 0 doc.toJson
    rw [htext, parse?_spread, Document.tree_toJson, Document.tree_toJson] at htree
    simp only [Option.some.injEq, Written.object.injEq, List.cons.injEq, Prod.mk.injEq,
      Written.array.injEq, true_and, and_true] at htree
    have hitem := congrArg (fun ws : List Written => ws[i]?) htree.2
    simp only [List.getElem?_map, hd, Option.map_some, Option.map_eq_some_iff] at hitem
    obtain ⟨r, hr, htree⟩ := hitem
    obtain ⟨d', rfl, hsame⟩ := Record.tree_distribution_eq_iff.mp htree.symm
    exact ⟨d', hr, hsame⟩

namespace Unbounded

/-- A view ahead without an end. -/
def members (text : String) : Json.Members := [("fov", .object [("forward", .string text)])]

def ahead (negative : Bool) : Distribution := ⟨.normal, .infinity negative, .zero⟩

def document (negative : Bool) : Document := ⟨.flow, [.distribution .fovForward (ahead negative)]⟩

def compiled (negative : Bool) : Compiled where
  bytes := [1, 5, 0, 1, 2, 0, 0, 0, 0, 0, 0, 240, if negative then 255 else 127,
    0, 0, 0, 0, 0, 0, 0, 0]
  recordCount := 1

theorem compile_inf :
    compile .standard .standard (fun _ => .ok []) ⟨members "inf", none⟩ = .ok (compiled false) := by
  cbv

theorem compile_negative_inf :
    compile .standard .standard (fun _ => .ok []) ⟨members "-inf", none⟩ = .ok (compiled true) := by
  cbv

theorem decode_compiled (negative : Bool) :
    Document.decode (compiled negative).bytes = .ok (document negative) := by
  cases negative <;> cbv

theorem inspection_document :
    Command.inspection true (document false) = Command.inspection true (document true) := rfl

end Unbounded

open Unbounded in
theorem Distribution.json_faithful_unbounded :
    (ahead false).first.isFinite = false ∧
      (Written.parse? (ahead false).toJson.compact).bind ofWritten? = none ∧
      Command.inspection true (document false) = Command.inspection true (document true) ∧
      ∃ d', (document true).records[0]? = some (.distribution .fovForward d') ∧
        (ahead false).Indistinct d' := by
  have hinfinite : (ahead false).first.isFinite = false := by decide
  obtain ⟨-, -, hrefused, -, halike⟩ := Distribution.json_faithful (ahead false)
  exact ⟨hinfinite, hrefused (.inl hinfinite), inspection_document,
    halike _ _ inspection_document 0 .fovForward rfl⟩

open Unbounded in
/-- An infinity is not read back, and the JSON does not tell it from its negative. -/
theorem Distribution.json_loses_infinity :
    compile .standard .standard (fun _ => .ok []) ⟨members "inf", none⟩ = .ok (compiled false) ∧
      compile .standard .standard (fun _ => .ok []) ⟨members "-inf", none⟩ = .ok (compiled true) ∧
      Document.decode (compiled false).bytes = .ok (document false) ∧
      Document.decode (compiled true).bytes = .ok (document true) ∧
      (∀ [DoubleReader], (Written.parse? (ahead false).toJson.compact).bind ofWritten? = none) ∧
      ahead false ≠ ahead true ∧ (ahead false).first.isNaN = false ∧
      (ahead true).first.isNaN = false ∧
      Command.inspection true (document false) = Command.inspection true (document true) := by
  have hread : ∀ [DoubleReader],
      (Written.parse? (ahead false).toJson.compact).bind ofWritten? = none := by
    intro
    rw [parse?_compact, Option.bind_some, ofWritten?_tree]
    rfl
  exact ⟨compile_inf, compile_negative_inf, decode_compiled false, decode_compiled true, hread,
    by decide, by decide, by decide, inspection_document⟩

end CrowdScenario

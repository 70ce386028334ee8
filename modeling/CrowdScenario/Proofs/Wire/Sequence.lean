import CrowdScenario.Proofs.Wire.RoundTrip
import CrowdScenario.Scene.Extraction
import Mathlib

/-!
# Places in the order of targets

A target area has its place in the order of targets and the mark of the last one in a single byte.
Packing them wraps around at 64 bits, so that a place below 128 is taken by two numbers: itself and
the number 2⁶³ below it. All other numbers are refused (`decode_targetArea`).
-/

namespace CrowdScenario

/-- A number takes a place in the order of targets if it is that place, or 2⁶³ less. -/
def TakesPlace (number : Int64) (place : Nat) : Prop :=
  place ≤ 127 ∧ (number.toInt = place ∨ number.toInt = place - 9223372036854775808)

theorem toInt_bounds (v : Int64) :
    -9223372036854775808 ≤ v.toInt ∧ v.toInt < 9223372036854775808 := by
  have hlow : (-2 ^ 63 : Int) ≤ v.toInt := v.le_toInt
  have hhigh : v.toInt < (2 ^ 63 : Int) := v.toInt_lt
  omega

namespace Geometry

theorem toInt_packSequence (number : Int64) (last : Bool) :
    (packSequence number last).toInt =
      (2 * number.toInt + if last then 1 else 0).bmod 18446744073709551616 :=
  Int64.toInt_ofInt

theorem toInt_packSequence_of_takesPlace {number : Int64} {place : Nat}
    (h : TakesPlace number place) (last : Bool) :
    (packSequence number last).toInt = 2 * place + if last then 1 else 0 := by
  obtain ⟨hplace, hnumber⟩ := h
  rw [toInt_packSequence, Int.bmod]
  cases last with
  | true =>
    simp only [if_true]
    omega
  | false =>
    simp only [Bool.false_eq_true, if_false]
    omega

theorem packSequence_fits_iff (number : Int64) (last : Bool) :
    (0 ≤ (packSequence number last).toInt ∧ (packSequence number last).toInt ≤ 255) ↔
      ∃ place, TakesPlace number place := by
  have hbounds := toInt_bounds number
  constructor
  · intro hfits
    rw [toInt_packSequence, Int.bmod] at hfits
    refine ⟨(number.toInt % 9223372036854775808).toNat, ?_, ?_⟩
    · cases last with
      | true =>
        simp only [if_true] at hfits
        omega
      | false =>
        simp only [Bool.false_eq_true, if_false] at hfits
        omega
    · omega
  · rintro ⟨place, h⟩
    have hpacked := toInt_packSequence_of_takesPlace h last
    have hplace := h.1
    cases last with
    | true =>
      simp only [if_true] at hpacked
      omega
    | false =>
      simp only [Bool.false_eq_true, if_false] at hpacked
      omega

theorem targetSequence?_of_takesPlace {number : Int64} {place : Nat} (h : TakesPlace number place)
    (x0 y0 x1 y1 id : Int64) (last : Bool) :
    (targetArea x0 y0 x1 y1 id number last).targetSequence? = some (place, last) := by
  have hpacked := toInt_packSequence_of_takesPlace h last
  have hplace := h.1
  have hbyte :
      ((packSequence number last).toInt % 256).toNat = 2 * place + if last then 1 else 0 := by
    rw [hpacked]
    cases last with
    | true =>
      simp only [if_true]
      omega
    | false =>
      simp only [Bool.false_eq_true, if_false]
      omega
  show some (_, _) = some (place, last)
  rw [hbyte]
  cases last with
  | true => simp [Nat.mul_add_div]
  | false => simp

end Geometry

theorem firstMisfit?_nil (k : Nat) (vs : List Int64) : firstMisfit? k [] vs = none := by
  rw [firstMisfit?]
  intro width ws v vs' hws
  cases hws

theorem firstMisfit?_cons_eq_none {k : Nat} {width : MemberWidth} {v : Int64}
    {ws : List MemberWidth} {vs : List Int64} :
    firstMisfit? k (width :: ws) (v :: vs) = none ↔
      (0 ≤ v.toInt ∧ v.toInt ≤ width.max) ∧ firstMisfit? (k + 1) ws vs = none := by
  rw [← width.holds_iff v, firstMisfit?]
  cases width.holds v <;> simp

namespace Writing

theorem outcome_targetArea (x0 y0 x1 y1 id number : Int64) (last : Bool) (w : Writer) :
    outcome (.geometry (.targetArea x0 y0 x1 y1 id number last)) w = .ok () ↔
      (∀ v ∈ [x0, y0, x1, y1], 0 ≤ v.toInt ∧ v.toInt ≤ 65535) ∧
        (0 ≤ id.toInt ∧ id.toInt ≤ 255) ∧ ∃ place, TakesPlace number place := by
  have hfit : firstMisfit? 0 GeometryTag.targetArea.layout
      [x0, y0, x1, y1, id, Geometry.packSequence number last] = none ↔
      (∀ v ∈ [x0, y0, x1, y1], 0 ≤ v.toInt ∧ v.toInt ≤ 65535) ∧
        (0 ≤ id.toInt ∧ id.toInt ≤ 255) ∧ ∃ place, TakesPlace number place := by
    rw [← Geometry.packSequence_fits_iff number last]
    simp only [GeometryTag.layout, firstMisfit?_cons_eq_none, firstMisfit?_nil]
    simp [MemberWidth.max, and_assoc]
  rw [outcome_geometry_ok, ← hfit, firstMisfit?_eq_none]
  exact ⟨fun h => h.2, fun h => ⟨rfl, h⟩⟩

/-- A target area is written exactly if its corners and its identifier fit and its number takes a
place; it is refused for a member that does not fit. What is read back says that place and the mark.
The place is the number itself exactly for numbers that are not among the 128 least. -/
theorem decode_targetArea (x0 y0 x1 y1 id number : Int64) (last : Bool) (s : Simulation) :
    (outcome (.geometry (.targetArea x0 y0 x1 y1 id number last)) (Writer.empty.simulation s) =
        .ok () ↔
      (∀ v ∈ [x0, y0, x1, y1], 0 ≤ v.toInt ∧ v.toInt ≤ 65535) ∧
        (0 ≤ id.toInt ∧ id.toInt ≤ 255) ∧ ∃ place, TakesPlace number place) ∧
    (outcome (.geometry (.targetArea x0 y0 x1 y1 id number last)) (Writer.empty.simulation s) ≠
        .ok () →
      ∃ i v width, outcome (.geometry (.targetArea x0 y0 x1 y1 id number last))
        (Writer.empty.simulation s) = .error (.outOfRange .targetArea i v width)) ∧
    (outcome (.geometry (.targetArea x0 y0 x1 y1 id number last)) (Writer.empty.simulation s) =
        .ok () →
      ∃ place g, TakesPlace number place ∧
        Document.decode (after (.geometry (.targetArea x0 y0 x1 y1 id number last))
          (Writer.empty.simulation s)).bytes = .ok ⟨s, [.geometry g]⟩ ∧
        g.tag = .targetArea ∧ g.targetSequence? = some (place, last) ∧
        (number.toInt = place ↔ -9223372036854775680 ≤ number.toInt)) := by
  have haccepted := outcome_targetArea x0 y0 x1 y1 id number last (Writer.empty.simulation s)
  refine ⟨haccepted, ?_, ?_⟩
  · intro hrefused
    rcases outcome_geometry (.targetArea x0 y0 x1 y1 id number last)
        (Writer.empty.simulation s) with
      ⟨-, hlen⟩ | ⟨i, v, width, hout, -, -⟩ | ⟨hout, -, -⟩
    · exact absurd rfl hlen
    · exact ⟨i, v, width, hout⟩
    · exact absurd hout hrefused
  · intro hok
    obtain ⟨-, -, place, hplace⟩ := haccepted.mp hok
    let call : Call := ⟨.geometry (.targetArea x0 y0 x1 y1 id number last), _, rfl⟩
    have hcall : outcome call.entry (Writer.empty.simulation s) = .ok () := hok
    have hholds := holds_after (holds_simulation s) hcall
    refine ⟨place, _, hplace, holds_decode hholds, rfl,
      Geometry.targetSequence?_of_takesPlace hplace x0 y0 x1 y1 id last, ?_⟩
    have hbounds := toInt_bounds number
    obtain ⟨hle, hnumber⟩ := hplace
    omega

end Writing

/-- A rectangle whose number in the order of targets is far below zero. -/
def farBelow : String :=
  "<svg><rect x_csim_class=\"target-area\" x_csim_seq_no=\"-9223372036854775807\"/></svg>"

/-- The rectangle of a scene with a number far below zero is written, and read back as the target in
place 1. -/
theorem targetArea_aliased :
    Scene.parse "hall.svg" farBelow =
        .ok [.width 0, .height 0, .targetArea 0 0 0 0 0 (-9223372036854775807) false] ∧
      Writing.outcome (.geometry (.targetArea 0 0 0 0 0 (-9223372036854775807) false))
        (Writer.empty.simulation .flow) = .ok () ∧
      Document.decode
        (Writing.after (.geometry (.targetArea 0 0 0 0 0 (-9223372036854775807) false))
          (Writer.empty.simulation .flow)).bytes =
          .ok ⟨.flow, [.geometry (.targetArea 0 0 0 0 0 1 false)]⟩ ∧
      (Geometry.targetArea 0 0 0 0 0 1 false).targetSequence? = some (1, false) := by
  refine ⟨by cbv, by cbv, by cbv, by decide⟩

end CrowdScenario

import CrowdScenario.Digest
import Mathlib.Logic.Function.Basic

/-!
# What a digest tells apart

Absorbing a byte can be undone, because an odd number has an inverse modulo `2 ^ 64`. So no two states
come together behind the same bytes, and a digest shows the change of any one byte
(`digest_tells_apart`).
-/

namespace CrowdScenario
namespace Digest

/-- The inverse of the multiplier modulo `2 ^ 64`. -/
def divisor : UInt64 := 0xce965057aff6957b

theorem multiplier_mul_divisor : multiplier * divisor = 1 := by
  decide

def release (d : Digest) (b : Byte) : Digest := ⟨d.state * divisor ^^^ b.toUInt64⟩

theorem release_absorb (d : Digest) (b : Byte) : (d.absorb b).release b = d := by
  have hmul : (d.state ^^^ b.toUInt64) * multiplier * divisor = d.state ^^^ b.toUInt64 := by
    rw [UInt64.mul_assoc, multiplier_mul_divisor, UInt64.mul_one]
  rw [release, absorb, hmul, UInt64.xor_assoc, UInt64.xor_self, UInt64.xor_zero]

theorem absorb_release (d : Digest) (b : Byte) : (d.release b).absorb b = d := by
  have hxor : d.state * divisor ^^^ b.toUInt64 ^^^ b.toUInt64 = d.state * divisor := by
    rw [UInt64.xor_assoc, UInt64.xor_self, UInt64.xor_zero]
  rw [absorb, release, hxor, UInt64.mul_assoc, UInt64.mul_comm divisor, multiplier_mul_divisor,
    UInt64.mul_one]

theorem absorb_inj {d : Digest} {x y : Byte} : d.absorb x = d.absorb y ↔ x = y := by
  constructor
  · intro h
    have hstates : (d.absorb x).state * divisor = (d.absorb y).state * divisor := by
      rw [h]
    simp only [absorb, UInt64.mul_assoc, multiplier_mul_divisor, UInt64.mul_one] at hstates
    exact UInt8.toUInt64_inj.mp (UInt64.xor_right_inj d.state |>.mp hstates)
  · rintro rfl
    rfl

def rewind (d : Digest) (bs : Bytes) : Digest := bs.foldr (fun b d => d.release b) d

theorem rewind_update (d : Digest) (bs : Bytes) : (d.update bs).rewind bs = d := by
  -- The byte that was absorbed first is released last.
  induction bs generalizing d with
  | nil => rfl
  | cons b bs ih =>
    show ((d.absorb b).update bs |>.rewind bs).release b = d
    rw [ih, release_absorb]

theorem update_rewind (d : Digest) (bs : Bytes) : (d.rewind bs).update bs = d := by
  induction bs with
  | nil => rfl
  | cons b bs ih =>
    show (((d.rewind bs).release b).absorb b).update bs = d
    rw [absorb_release, ih]

theorem bijective_update (bs : Bytes) : Function.Bijective fun d : Digest => d.update bs :=
  Function.bijective_iff_has_inverse.mpr
    ⟨fun d => d.rewind bs, fun d => rewind_update d bs, fun d => update_rewind d bs⟩

theorem update_inj {d d' : Digest} {bs : Bytes} : d.update bs = d'.update bs ↔ d = d' :=
  (bijective_update bs).injective.eq_iff

theorem update_changed_inj {d : Digest} {before behind : Bytes} {x y : Byte} :
    d.update (before ++ [x] ++ behind) = d.update (before ++ [y] ++ behind) ↔ x = y := by
  simp only [update_append]
  exact update_inj.trans absorb_inj

theorem foldl_update (chunks : List Bytes) (d : Digest) :
    chunks.foldl update d = d.update chunks.flatten := by
  induction chunks generalizing d with
  | nil => rfl
  | cons chunk chunks ih => rw [List.foldl_cons, ih, List.flatten_cons, update_append]

/-- The digests of two byte strings that differ in one byte differ, and bytes lead from different
states to different states and to all of them. The digest of a document is the state behind its
pieces, wherever it is cut. -/
theorem digest_tells_apart :
    (∀ (before behind : Bytes) (x y : Byte),
      ofBytes (before ++ [x] ++ behind) = ofBytes (before ++ [y] ++ behind) ↔ x = y) ∧
    (∀ behind : Bytes, Function.Bijective fun d : Digest => d.update behind) ∧
    ∀ chunks : List Bytes, chunks.foldl update initial = ofBytes chunks.flatten :=
  ⟨fun _ _ _ _ => update_changed_inj, bijective_update, fun chunks => foldl_update chunks initial⟩

/-- A document in three pieces, of which one is empty. -/
example : ([[1], [], [1, 0]] : List Bytes).foldl update initial = ofBytes [1, 1, 0] := by decide

end Digest
end CrowdScenario

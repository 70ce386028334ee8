import CrowdScenario.Decimal.Shortest
import CrowdScenario.Proofs.Binary64.Nearest

/-!
# Decimals that read back

What a decimal is read as does not depend on how its zeros are split between the digits and the
exponent. The digits that are chosen for a finite double read back as the double
(`Decimal.readsBack_shortest`): those found on a grid have been tried, and otherwise all digits of
the exact value are taken.
-/

namespace CrowdScenario

namespace Binary64

/-- Exponents that are not looked at are so far out that rounding has the same result. -/
theorem ofDecimal_eq_ofRatio (negative : Bool) {digits : ℕ} (h : digits ≠ 0) (exponent : ℤ) :
    ofDecimal negative digits exponent =
      ofRatio negative (digits * power 10 exponent) (power 10 (-exponent)) := by
  have hdigits : 0 < digits := Nat.pos_of_ne_zero h
  rw [ofDecimal, if_neg h]
  split
  · next hlarge =>
    unfold largestDecimalExponent at hlarge
    obtain ⟨n, rfl⟩ := Int.eq_ofNat_of_zero_le (by omega : 0 ≤ exponent)
    have hpower : 2 ^ (3 * n) ≤ 10 ^ n := by
      rw [pow_mul]
      exact Nat.pow_le_pow_left (by decide) n
    have hbound : 1 * 2 ^ (3 * n) ≤ digits * 10 ^ n := Nat.mul_le_mul hdigits hpower
    rw [power_of_nonpos 10 (by omega : -(n : ℤ) ≤ 0), ofRatio]
    have hinfinity : nearestMagnitude (digits * power 10 n) 1 = infinityBits :=
      nearestMagnitude_of_large Nat.one_pos (by omega : 1024 ≤ 3 * n) hbound
    rw [hinfinity]
    rfl
  · split
    · next hsmall =>
      obtain ⟨n, hn⟩ := Int.eq_ofNat_of_zero_le (by omega : 0 ≤ -exponent)
      have hpower : 2 ^ (3 * n) ≤ 10 ^ n := by
        rw [pow_mul]
        exact Nat.pow_le_pow_left (by decide) n
      have hbound : digits * 2 ^ 1100 ≤ 10 ^ n := by
        calc digits * 2 ^ 1100 ≤ 2 ^ (digits.log2 + 1) * 2 ^ 1100 := by
              gcongr
              exact Nat.lt_log2_self.le
          _ = 2 ^ (digits.log2 + 1 + 1100) := (pow_add ..).symm
          _ ≤ 2 ^ (3 * n) := Nat.pow_le_pow_right (by decide) (by omega)
          _ ≤ 10 ^ n := hpower
      rw [power_of_nonpos 10 (by omega), mul_one, hn, ofRatio]
      have hzero : nearestMagnitude digits (power 10 n) = 0 :=
        nearestMagnitude_of_small hdigits (by decide) hbound
      rw [hzero]
    · rfl

theorem ofDecimal_zeros (negative : Bool) (digits k : ℕ) (exponent : ℤ) :
    ofDecimal negative (10 ^ k * digits) exponent = ofDecimal negative digits (exponent + k) := by
  rcases Nat.eq_zero_or_pos digits with rfl | hpos
  · rw [Nat.mul_zero, ofDecimal, ofDecimal, if_pos rfl, if_pos rfl]
  have hne : 10 ^ k * digits ≠ 0 := (Nat.mul_pos (Nat.pow_pos (by decide)) hpos).ne'
  rw [ofDecimal_eq_ofRatio negative hne, ofDecimal_eq_ofRatio negative hpos.ne', ofRatio, ofRatio]
  congr 1
  apply nearestMagnitude_congr (power_pos (by decide) _) (power_pos (by decide) _)
  have hexponents : k + exponent.toNat + (-(exponent + k)).toNat =
      (exponent + k).toNat + (-exponent).toNat := by omega
  calc 10 ^ k * digits * power 10 exponent * power 10 (-(exponent + k))
      = digits * 10 ^ (k + exponent.toNat + (-(exponent + k)).toNat) := by
        simp only [power, Nat.pow_eq, pow_add]
        ring
    _ = digits * power 10 (exponent + k) * power 10 (-exponent) := by
        rw [hexponents, pow_add]
        simp only [power, Nat.pow_eq]
        ring

end Binary64

namespace Decimal

open Binary64

theorem readsBack_iff {x : Binary64} {d : Decimal} :
    readsBack x d = true ↔ ofDecimal x.isNegative d.digits d.exponent = x :=
  decide_eq_true_iff

theorem readsBack_strip (x : Binary64) (fuel : ℕ) (d : Decimal) :
    readsBack x (strip fuel d) = readsBack x d := by
  induction fuel generalizing d with
  | zero => rfl
  | succ fuel ih =>
    rw [strip]
    split
    · next h =>
      have hdigits : 10 ^ 1 * (d.digits / 10) = d.digits := by omega
      have hzero := ofDecimal_zeros x.isNegative (d.digits / 10) 1 d.exponent
      rw [hdigits, Nat.cast_one] at hzero
      rw [ih, readsBack, readsBack, hzero]
    · rfl

theorem readsBack_of_onGrid {tie : Tie} {x : Binary64} {exponent : ℤ} {d : Decimal}
    (h : onGrid tie x exponent = some d) : readsBack x d = true := by
  unfold onGrid at h
  extract_lets num den lower upper twice lowerFirst first second at h
  split at h
  · next hfirst =>
    rw [← Option.some.inj h]
    exact hfirst
  · split at h
    · next hsecond =>
      rw [← Option.some.inj h]
      exact hsecond
    · cases h

theorem readsBack_exact {x : Binary64} (hfinite : x.isFinite = true) (hzero : x.isZero = false) :
    readsBack x (exact x) = true := by
  have hsignificand := significand_pos hzero
  have hratio := ofRatio_ratio hfinite hzero
  rw [readsBack_iff, exact]
  split
  · next hscale =>
    have hone : x.ratio.2 = 1 := power_of_nonpos 2 (by omega)
    have hpos : 0 < x.ratio.1 := Nat.mul_pos hsignificand (power_pos (by decide) _)
    rw [ofDecimal_eq_ofRatio _ hpos.ne', power_of_nonpos 10 le_rfl,
      power_of_nonpos 10 (neg_nonpos.mpr le_rfl), mul_one, ← hone]
    exact hratio
  · next hscale =>
    -- A negative power of two is a power of five over one of ten.
    have hpos : 0 < x.significand * power 5 (-x.scale) :=
      Nat.mul_pos hsignificand (power_pos (by decide) _)
    have htwo : x.ratio.1 = x.significand := by
      rw [ratio, power_of_nonpos 2 (by omega), mul_one]
    rw [ofDecimal_eq_ofRatio _ hpos.ne', power_of_nonpos 10 (by omega : x.scale ≤ 0), mul_one]
    conv => rhs; rw [← hratio]
    rw [ofRatio, ofRatio]
    congr 1
    apply nearestMagnitude_congr (power_pos (by decide) _) (power_pos (by decide) _)
    have hten : power 10 (-x.scale) = power 5 (-x.scale) * power 2 (-x.scale) :=
      Nat.mul_pow 5 2 _
    rw [htwo, hten]
    ring

/-- The digits chosen for a finite double read back as the double. -/
theorem readsBack_shortest (tie : Tie) {x : Binary64} (h : x.isFinite = true) :
    readsBack x (shortest tie x) = true := by
  unfold shortest
  cases hzero : x.isZero with
  | true =>
    have hbits : x.exponentBits = 0 ∧ x.fractionBits = 0 := of_decide_eq_true hzero
    have hmagnitude : x.bits.toNat % signUnit = 0 := by
      unfold exponentBits fractionBits exponentUnit at hbits
      unfold signUnit
      omega
    rw [readsBack_iff]
    have hx := ofMagnitudeBits_mod x
    rw [hmagnitude] at hx
    exact hx
  | false =>
    simp only [Bool.false_eq_true, ↓reduceIte]
    rw [normalise, readsBack_strip]
    cases hgrid : List.findSome? _ _ with
    | some d =>
      obtain ⟨exponent, -, hd⟩ := List.exists_of_findSome?_eq_some hgrid
      exact readsBack_of_onGrid hd
    | none => exact readsBack_exact h hzero

end Decimal

end CrowdScenario

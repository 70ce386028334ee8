import CrowdScenario.Binary64.Integral
import CrowdScenario.Proofs.Binary64.Nearest

/-!
# Finite doubles

A ratio that is well below the largest double has a finite double next to it, and so has every whole
number of 64 bits. A double that is not finite has a 64-bit integer of its own all the same: zero, or
the one at the end of the range on its side (`toInt64_of_not_isFinite`).
-/

namespace CrowdScenario.Binary64

theorem nearestEven_le {n num den : ℕ} (h : num < den * n) : nearestEven num den ≤ n := by
  have hfloor : num / den < n := Nat.div_lt_of_lt_mul h
  simp only [nearestEven]
  split <;> omega

theorem nearestMagnitude_lt {num den k : ℕ} (hden : 0 < den) (hk : k ≤ 1023)
    (h : num < den * 2 ^ k) : nearestMagnitude num den < infinityBits := by
  rcases Nat.eq_zero_or_pos num with rfl | hnum
  · rw [nearestMagnitude, if_pos rfl]
    decide
  have hden' : (0 : ℚ) < den := by exact_mod_cast hden
  have hq : (0 : ℚ) < (num : ℚ) / den := by positivity
  have hlog : floorLog2 num den < k := by
    rw [floorLog2_eq hnum hden]
    refine (Int.lt_zpow_iff_log_lt (b := 2) (by decide) hq).mp ?_
    rw [div_lt_iff₀ hden', mul_comm]
    exact_mod_cast h
  set e : ℤ := max (floorLog2 num den - 52) (-1074) with he
  -- A significand has 53 bits at most, in units of `2 ^ e`.
  have hratio : (num : ℚ) / den < (2 : ℚ) ^ e * 2 ^ 53 := by
    calc (num : ℚ) / den < (2 : ℚ) ^ (floorLog2 num den + 1) := by
          rw [floorLog2_eq hnum hden]
          exact_mod_cast Int.lt_zpow_succ_log_self (b := 2) (by decide) ((num : ℚ) / den)
      _ ≤ (2 : ℚ) ^ (e + 53) := zpow_le_zpow_right₀ (by norm_num) (by omega)
      _ = (2 : ℚ) ^ e * 2 ^ 53 := by
        rw [zpow_add₀ (by norm_num : (2 : ℚ) ≠ 0)]
        norm_cast
  have hscaled : num * power 2 (-e) < den * power 2 e * 2 ^ 53 := by
    have hpower : (0 : ℚ) < power 2 (-e) := by exact_mod_cast power_pos (by decide) _
    rw [two_zpow, div_mul_eq_mul_div, div_lt_div_iff₀ hden' hpower] at hratio
    have hswap : (num : ℚ) * power 2 (-e) < den * power 2 e * 2 ^ 53 := by
      calc (num : ℚ) * power 2 (-e) < power 2 e * 2 ^ 53 * den := hratio
        _ = den * power 2 e * 2 ^ 53 := by ring
    exact_mod_cast hswap
  have hunits := nearestEven_le hscaled
  have hexponent : (e + 1074).toNat ≤ 2044 := by omega
  have hmul := Nat.mul_le_mul_right exponentUnit hexponent
  rw [nearestMagnitude, if_neg hnum.ne', ← he]
  refine lt_of_le_of_lt (min_le_left _ _) ?_
  unfold infinityBits exponentUnit at *
  omega

theorem isFinite_ofMagnitudeBits (negative : Bool) {magnitude : ℕ} (h : magnitude < infinityBits) :
    (ofMagnitudeBits negative magnitude).isFinite = true := by
  unfold infinityBits exponentUnit at h
  have hbits : (ofMagnitudeBits negative magnitude).bits.toNat =
      (if negative then signUnit + magnitude else magnitude) := by
    refine UInt64.toNat_ofNat_of_lt' ?_
    unfold signUnit
    split <;> simp only [UInt64.size] <;> omega
  rw [isFinite, exponentBits, hbits, exponentUnit, signUnit, decide_eq_true_eq]
  split <;> omega

theorem isFinite_ofRatio (negative : Bool) {num den k : ℕ} (hden : 0 < den) (hk : k ≤ 1023)
    (h : num < den * 2 ^ k) : (ofRatio negative num den).isFinite = true :=
  isFinite_ofMagnitudeBits negative (nearestMagnitude_lt hden hk h)

theorem isFinite_ofDecimal (negative : Bool) {digits : ℕ} (h : digits ≤ 2 ^ 63) :
    (ofDecimal negative digits 0).isFinite = true := by
  rw [ofDecimal]
  split
  · exact isFinite_ofMagnitudeBits negative (by decide)
  · rw [if_neg (by decide), if_neg (by omega)]
    rw [neg_zero, power_of_nonpos 10 (le_refl 0), mul_one]
    exact isFinite_ofRatio negative Nat.one_pos (by decide : 64 ≤ 1023) (by omega)

/-- The 64-bit integer for a double that is not finite. -/
def bound (x : Binary64) : Int64 :=
  if x.isNaN then 0 else if x.isNegative then Int64.minValue else Int64.maxValue

theorem toInt64_of_not_isFinite {x : Binary64} (h : x.isFinite = false) : x.toInt64 = x.bound := by
  have hlt : x.exponentBits < 2048 := Nat.mod_lt _ (by decide)
  have hexponent : x.exponentBits = 2047 := by
    rw [isFinite, decide_eq_false_iff_not] at h
    omega
  rw [toInt64, bound]
  split
  · rfl
  · next hnan =>
    have hinfinite : x.isInfinite = true := by
      rw [isNaN, decide_eq_true_eq, not_and_not_right] at hnan
      rw [isInfinite, decide_eq_true_eq]
      exact ⟨hexponent, hnan hexponent⟩
    rw [if_pos hinfinite]
    split <;> rfl

theorem toInt64_ofInt_zero : (ofInt (0 : Int64).toInt).toInt64 = 0 := by decide +kernel

theorem toInt64_ofInt_minValue : (ofInt Int64.minValue.toInt).toInt64 = Int64.minValue := by
  decide +kernel

theorem toInt64_ofInt_maxValue : (ofInt Int64.maxValue.toInt).toInt64 = Int64.maxValue := by
  decide +kernel

theorem toInt64_ofInt_bound (x : Binary64) : (ofInt x.bound.toInt).toInt64 = x.bound := by
  rw [bound]
  by_cases hnan : x.isNaN = true
  · rw [if_pos hnan]
    exact toInt64_ofInt_zero
  · rw [if_neg hnan]
    by_cases hnegative : x.isNegative = true
    · rw [if_pos hnegative]
      exact toInt64_ofInt_minValue
    · rw [if_neg hnegative]
      exact toInt64_ofInt_maxValue

end CrowdScenario.Binary64

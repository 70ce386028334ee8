import CrowdScenario.Binary64.Integral
import Mathlib

/-!
# Exact values of doubles and their rounding

A finite double has an exact value, and it is rounded to the whole number nearest to that value, away
from zero where two are equally near (`Binary64.rounds_roundHalfAway`). There is just one such number.
-/

namespace CrowdScenario

/-- The whole number nearest to a value, and away from zero where two are equally near. -/
def Rounds (q : ℚ) (n : ℤ) : Prop :=
  |q - n| < 1 / 2 ∨ |q - n| = 1 / 2 ∧ |q| < |(n : ℚ)|

namespace Rounds

variable {q : ℚ} {n n' : ℤ}

theorem neg (h : Rounds q n) : Rounds (-q) (-n) := by
  have hdistance : |-q - ((-n : ℤ) : ℚ)| = |q - n| := by
    rw [Int.cast_neg, neg_sub_neg, abs_sub_comm]
  rwa [Rounds, hdistance, abs_neg, Int.cast_neg, abs_neg]

/-- A half is not nearer to zero than both whole numbers beside it. -/
theorem not_both_away (n : ℤ) (h : |(n : ℚ) + 1 / 2| < |(n : ℚ)|) :
    ¬ |(n : ℚ) + 1 / 2| < |(n : ℚ) + 1| := by
  rcases lt_or_ge n 0 with hneg | hpos
  · have hn : (n : ℚ) + 1 ≤ 0 := by exact_mod_cast Int.add_one_le_iff.mpr hneg
    rw [abs_of_nonpos hn, abs_of_neg (by linarith)]
    linarith
  · have hn : (0 : ℚ) ≤ n := by exact_mod_cast hpos
    rw [abs_of_nonneg hn, abs_of_nonneg (by linarith)] at h
    linarith

theorem unique (h : Rounds q n) (h' : Rounds q n') : n = n' := by
  by_contra hne
  have hfar : (1 : ℚ) ≤ |(n : ℚ) - n'| := by
    have hint := Int.one_le_abs (sub_ne_zero.mpr hne)
    exact_mod_cast hint
  have hnear : |(n : ℚ) - n'| ≤ |q - n| + |q - n'| := by
    have htriangle := abs_sub_le (n : ℚ) q n'
    rwa [abs_sub_comm (n : ℚ) q] at htriangle
  rcases h with h | ⟨h, haway⟩
  · rcases h' with h' | ⟨h', -⟩ <;> linarith
  rcases h' with h' | ⟨h', haway'⟩
  · linarith
  -- Both are half a unit away, on different sides.
  rcases (abs_eq (by norm_num)).mp h with hq | hq <;>
    rcases (abs_eq (by norm_num)).mp h' with hq' | hq'
  · exact hne (by exact_mod_cast (by linarith : (n : ℚ) = n'))
  · obtain rfl : q = n + 1 / 2 := by linarith
    have hnext : (n' : ℚ) = n + 1 := by linarith
    rw [hnext] at haway'
    exact not_both_away n haway haway'
  · obtain rfl : q = n' + 1 / 2 := by linarith
    have hnext : (n : ℚ) = n' + 1 := by linarith
    rw [hnext] at haway
    exact not_both_away n' haway' haway
  · exact hne (by exact_mod_cast (by linarith : (n : ℚ) = n'))

theorem ratio (num : ℕ) {den : ℕ} (hden : 0 < den) :
    Rounds ((num : ℚ) / den) (((2 * num + den) / (2 * den) : ℕ) : ℤ) := by
  set k := (2 * num + den) / (2 * den) with hk
  have hlow : 2 * den * k ≤ 2 * num + den := Nat.mul_div_le _ _
  have hhigh : 2 * num + den < 2 * den * (k + 1) := Nat.lt_mul_div_succ _ (by omega)
  have hpos : (0 : ℚ) < den := by exact_mod_cast hden
  have hlow' : (k : ℚ) - 1 / 2 ≤ num / den := by
    rw [le_div_iff₀ hpos]
    have hcast : (2 : ℚ) * den * k ≤ 2 * num + den := by exact_mod_cast hlow
    linarith
  have hhigh' : (num : ℚ) / den < k + 1 / 2 := by
    rw [div_lt_iff₀ hpos]
    have hcast : (2 : ℚ) * num + den < 2 * den * (k + 1) := by exact_mod_cast hhigh
    linarith
  have hnonneg : (0 : ℚ) ≤ num / den := by positivity
  rw [Rounds, Int.cast_natCast]
  rcases hlow'.eq_or_lt with heq | hlt
  · rw [← heq] at hnonneg ⊢
    refine .inr ⟨?_, ?_⟩
    · rw [abs_of_nonpos] <;> linarith
    · rw [abs_of_nonneg hnonneg, abs_of_nonneg (by linarith)]
      linarith
  · refine .inl (abs_lt.mpr ⟨?_, ?_⟩) <;> linarith

end Rounds

theorem two_zpow (s : ℤ) : (2 : ℚ) ^ s = power 2 s / power 2 (-s) := by
  rcases le_total 0 s with h | h
  · obtain ⟨k, rfl⟩ := Int.eq_ofNat_of_zero_le h
    simp [power]
  · obtain ⟨k, hk⟩ := Int.eq_ofNat_of_zero_le (neg_nonneg.mpr h)
    obtain rfl : s = -k := by omega
    simp [power]

namespace Binary64

/-- The exact value of a finite double. -/
def toRat (x : Binary64) : ℚ :=
  (if x.isNegative then -1 else 1) * (x.significand * (2 : ℚ) ^ x.scale)

theorem rounds_roundHalfAway (x : Binary64) : Rounds x.toRat x.roundHalfAway := by
  have hmagnitude : (x.significand : ℚ) * (2 : ℚ) ^ x.scale = (x.ratio.1 : ℚ) / x.ratio.2 := by
    rw [two_zpow, ratio, Nat.cast_mul, mul_div_assoc]
  have hpos : 0 < x.ratio.2 := power_pos (by decide) _
  have hrounds := Rounds.ratio x.ratio.1 hpos
  rw [toRat, hmagnitude, roundHalfAway, withSign]
  cases x.isNegative with
  | true => simpa using hrounds.neg
  | false => simpa using hrounds

end Binary64

end CrowdScenario

import CrowdScenario.Binary64.Rounding
import CrowdScenario.Proofs.Binary64.Rounding

/-!
# The nearest double

Which double is nearest to a ratio depends on the value of the ratio alone. A ratio that is the
exact magnitude of a double is rounded to that double (`Binary64.nearestMagnitude_ratio`). Very
large ratios are rounded to an infinity, and very small ones to zero.
-/

namespace CrowdScenario.Binary64

theorem nearestEven_mul {k : ℕ} (hk : 0 < k) (num den : ℕ) :
    nearestEven (k * num) (k * den) = nearestEven num den := by
  have htwice : 2 * (k * (num % den)) = k * (2 * (num % den)) := by ring
  simp only [nearestEven, Nat.mul_div_mul_left _ _ hk, Nat.mul_mod_mul_left, htwice,
    Nat.mul_lt_mul_left hk, Nat.mul_right_inj hk.ne']

theorem mul_power_lt_iff (num : ℕ) {den : ℕ} (hden : 0 < den) (k : ℤ) :
    num * power 2 (-k) < den * power 2 k ↔ (num : ℚ) / den < (2 : ℚ) ^ k := by
  have hden' : (0 : ℚ) < den := by exact_mod_cast hden
  have hpower : (0 : ℚ) < power 2 (-k) := by exact_mod_cast power_pos (by decide) _
  rw [two_zpow, div_lt_div_iff₀ hden' hpower, mul_comm (power 2 k : ℚ)]
  exact_mod_cast Iff.rfl

theorem two_zpow_log2 {n : ℕ} (hn : 0 < n) :
    (2 : ℚ) ^ (n.log2 : ℤ) ≤ n ∧ (n : ℚ) < (2 : ℚ) ^ (n.log2 + 1 : ℤ) := by
  have hlow : 2 ^ n.log2 ≤ n := Nat.log2_self_le hn.ne'
  have hhigh : n < 2 ^ (n.log2 + 1) := Nat.lt_log2_self
  constructor
  · exact_mod_cast hlow
  · exact_mod_cast hhigh

theorem log_two_eq {q : ℚ} (hq : 0 < q) {n : ℤ} (hlow : (2 : ℚ) ^ n ≤ q)
    (hhigh : q < (2 : ℚ) ^ (n + 1)) : Int.log 2 q = n := by
  have hle := (Int.zpow_le_iff_le_log (b := 2) (by decide) hq).mp (by exact_mod_cast hlow)
  have hlt := (Int.lt_zpow_iff_log_lt (b := 2) (by decide) hq).mp (by exact_mod_cast hhigh)
  omega

theorem floorLog2_eq {num den : ℕ} (hnum : 0 < num) (hden : 0 < den) :
    floorLog2 num den = Int.log 2 ((num : ℚ) / den) := by
  have hnum' : (0 : ℚ) < num := by exact_mod_cast hnum
  have hden' : (0 : ℚ) < den := by exact_mod_cast hden
  have hq : (0 : ℚ) < (num : ℚ) / den := div_pos hnum' hden'
  obtain ⟨hnumLow, hnumHigh⟩ := two_zpow_log2 hnum
  obtain ⟨hdenLow, hdenHigh⟩ := two_zpow_log2 hden
  set k : ℤ := (num.log2 : ℤ) - den.log2 with hk
  have htwo : (2 : ℚ) ≠ 0 := by norm_num
  have hlow : (2 : ℚ) ^ (k - 1) ≤ num / den := by
    rw [le_div_iff₀ hden']
    calc (2 : ℚ) ^ (k - 1) * den ≤ (2 : ℚ) ^ (k - 1) * (2 : ℚ) ^ (den.log2 + 1 : ℤ) := by gcongr
      _ = (2 : ℚ) ^ (num.log2 : ℤ) := by
        rw [← zpow_add₀ htwo]
        congr 1
        omega
      _ ≤ num := hnumLow
  have hhigh : (num : ℚ) / den < (2 : ℚ) ^ (k + 1) := by
    rw [div_lt_iff₀ hden']
    calc (num : ℚ) < (2 : ℚ) ^ (num.log2 + 1 : ℤ) := hnumHigh
      _ = (2 : ℚ) ^ (k + 1) * (2 : ℚ) ^ (den.log2 : ℤ) := by
        rw [← zpow_add₀ htwo]
        congr 1
        omega
      _ ≤ (2 : ℚ) ^ (k + 1) * den := by gcongr
  rw [floorLog2, ← hk]
  simp only [mul_power_lt_iff num hden]
  split
  · next hless =>
    symm
    apply log_two_eq hq hlow
    rwa [sub_add_cancel]
  · next hnot => exact (log_two_eq hq (not_lt.mp hnot) hhigh).symm

theorem nearestMagnitude_mul {k : ℕ} (hk : 0 < k) (num : ℕ) {den : ℕ} (hden : 0 < den) :
    nearestMagnitude (k * num) (k * den) = nearestMagnitude num den := by
  unfold nearestMagnitude
  rcases Nat.eq_zero_or_pos num with rfl | hnum
  · rw [Nat.mul_zero, if_pos rfl, if_pos rfl]
  have hlog : floorLog2 (k * num) (k * den) = floorLog2 num den := by
    have hk' : (k : ℚ) ≠ 0 := by exact_mod_cast hk.ne'
    rw [floorLog2_eq (Nat.mul_pos hk hnum) (Nat.mul_pos hk hden), floorLog2_eq hnum hden,
      Nat.cast_mul, Nat.cast_mul, mul_div_mul_left _ _ hk']
  rw [if_neg (Nat.mul_pos hk hnum).ne', if_neg hnum.ne', hlog]
  simp only [Nat.mul_assoc, nearestEven_mul hk]

theorem nearestMagnitude_congr {num den num' den' : ℕ} (hden : 0 < den) (hden' : 0 < den')
    (h : num * den' = num' * den) : nearestMagnitude num den = nearestMagnitude num' den' := by
  rw [← nearestMagnitude_mul hden' num hden, ← nearestMagnitude_mul hden num' hden', mul_comm den',
    h, mul_comm num', mul_comm den']

theorem le_nearestEven {n num den : ℕ} (hden : 0 < den) (h : den * n ≤ num) :
    n ≤ nearestEven num den := by
  have hfloor : n ≤ num / den := (Nat.le_div_iff_mul_le hden).mpr (by rwa [mul_comm])
  simp only [nearestEven]
  split <;> omega

theorem nearestEven_of_exact {den : ℕ} (hden : 0 < den) (n : ℕ) :
    nearestEven (den * n) den = n := by
  have hnot : ¬(den < 2 * 0 ∨ 2 * 0 = den ∧ n % 2 = 1) := by omega
  simp only [nearestEven, Nat.mul_div_cancel_left _ hden, Nat.mul_mod_right, if_neg hnot]

theorem nearestEven_of_small {num den : ℕ} (h : 2 * num < den) : nearestEven num den = 0 := by
  have hless : num < den := by omega
  have hnot : ¬(den < 2 * num ∨ 2 * num = den ∧ 0 % 2 = 1) := by omega
  simp only [nearestEven, Nat.div_eq_of_lt hless, Nat.mod_eq_of_lt hless, if_neg hnot]

theorem significand_ratio (s : ℕ) (e : ℤ) :
    ((s * power 2 e : ℕ) : ℚ) / (power 2 (-e) : ℕ) = s * (2 : ℚ) ^ e := by
  rw [two_zpow, Nat.cast_mul, mul_div_assoc]

/-- A significand below `2 ^ 53`, at the smallest scale or with all its bits, is kept. -/
theorem nearestMagnitude_of_significand {s : ℕ} {e : ℤ} (hs : 0 < s) (hhigh : s < 2 ^ 53)
    (hlow : e = -1074 ∨ -1074 ≤ e ∧ 2 ^ 52 ≤ s) :
    nearestMagnitude (s * power 2 e) (power 2 (-e)) =
      min ((e + 1074).toNat * exponentUnit + s) infinityBits := by
  have hup : 0 < power 2 e := power_pos (by decide) e
  have hdown : 0 < power 2 (-e) := power_pos (by decide) (-e)
  have hnum : 0 < s * power 2 e := Nat.mul_pos hs hup
  have htwo : (2 : ℚ) ≠ 0 := by norm_num
  have hq : (0 : ℚ) < s * (2 : ℚ) ^ e := by positivity
  have hbelow : (s : ℚ) * (2 : ℚ) ^ e < (2 : ℚ) ^ (e + 53) := by
    have hs' : (s : ℚ) < (2 : ℚ) ^ (53 : ℤ) := by exact_mod_cast hhigh
    rw [add_comm, zpow_add₀ htwo]
    gcongr
  -- The unit that is chosen is that of the significand, so nothing is rounded.
  have hscale : max (floorLog2 (s * power 2 e) (power 2 (-e)) - 52) (-1074) = e := by
    rw [floorLog2_eq hnum hdown, significand_ratio]
    have hlog : Int.log 2 ((s : ℚ) * (2 : ℚ) ^ e) < e + 53 :=
      (Int.lt_zpow_iff_log_lt (b := 2) (by decide) hq).mp (by exact_mod_cast hbelow)
    rcases hlow with rfl | ⟨hmin, hbits⟩
    · omega
    · have habove : (2 : ℚ) ^ (e + 52) ≤ s * (2 : ℚ) ^ e := by
        have hs' : (2 : ℚ) ^ (52 : ℤ) ≤ s := by exact_mod_cast hbits
        rw [add_comm, zpow_add₀ htwo]
        gcongr
      have hlog' : e + 52 ≤ Int.log 2 ((s : ℚ) * (2 : ℚ) ^ e) :=
        (Int.zpow_le_iff_le_log (b := 2) (by decide) hq).mp (by exact_mod_cast habove)
      omega
  have hunits : nearestEven (s * power 2 e * power 2 (-e)) (power 2 (-e) * power 2 e) = s := by
    have hexact : s * power 2 e * power 2 (-e) = power 2 (-e) * power 2 e * s := by ring
    rw [hexact]
    exact nearestEven_of_exact (Nat.mul_pos hdown hup) s
  rw [nearestMagnitude, if_neg hnum.ne']
  simp only [hscale, hunits]

theorem significand_pos {x : Binary64} (hzero : x.isZero = false) : 0 < x.significand := by
  have hne : ¬(x.exponentBits = 0 ∧ x.fractionBits = 0) := of_decide_eq_false hzero
  unfold significand exponentUnit
  split <;> omega

theorem nearestMagnitude_ratio {x : Binary64} (hfinite : x.isFinite = true)
    (hzero : x.isZero = false) :
    nearestMagnitude x.ratio.1 x.ratio.2 = x.bits.toNat % signUnit := by
  have hexponent : x.exponentBits < 2047 := of_decide_eq_true hfinite
  have hpos : 0 < x.significand := significand_pos hzero
  have hfraction : x.fractionBits < exponentUnit := Nat.mod_lt _ (by decide)
  have hbits : x.bits.toNat % signUnit = x.exponentBits * exponentUnit + x.fractionBits := by
    unfold exponentBits fractionBits signUnit exponentUnit
    omega
  have hsignificand : x.significand < 2 ^ 53 ∧
      (x.scale = -1074 ∨ -1074 ≤ x.scale ∧ 2 ^ 52 ≤ x.significand) := by
    unfold significand scale
    unfold exponentUnit at *
    split <;> omega
  obtain ⟨hhigh, hlow⟩ := hsignificand
  rw [ratio, nearestMagnitude_of_significand hpos hhigh hlow, hbits]
  unfold significand scale infinityBits
  unfold exponentUnit at *
  split <;> omega

theorem ofMagnitudeBits_mod (x : Binary64) :
    ofMagnitudeBits x.isNegative (x.bits.toNat % signUnit) = x := by
  have hlt : x.bits.toNat < 2 * signUnit := x.bits.toNat_lt
  have hbits : (if x.isNegative then signUnit + x.bits.toNat % signUnit
      else x.bits.toNat % signUnit) = x.bits.toNat := by
    unfold isNegative
    unfold signUnit at *
    split <;> simp at * <;> omega
  rw [ofMagnitudeBits, hbits, UInt64.ofNat_toNat]

theorem ofRatio_ratio {x : Binary64} (hfinite : x.isFinite = true) (hzero : x.isZero = false) :
    ofRatio x.isNegative x.ratio.1 x.ratio.2 = x := by
  rw [ofRatio, nearestMagnitude_ratio hfinite hzero, ofMagnitudeBits_mod]

theorem nearestMagnitude_of_large {num den k : ℕ} (hden : 0 < den) (hk : 1024 ≤ k)
    (h : den * 2 ^ k ≤ num) : nearestMagnitude num den = infinityBits := by
  have hnum : 0 < num := lt_of_lt_of_le (Nat.mul_pos hden (Nat.two_pow_pos k)) h
  have hden' : (0 : ℚ) < den := by exact_mod_cast hden
  have hq : (0 : ℚ) < (num : ℚ) / den := by positivity
  have hlarge : (2 : ℚ) ^ (k : ℤ) ≤ num / den := by
    rw [le_div_iff₀ hden', mul_comm]
    exact_mod_cast h
  have hlog : k ≤ floorLog2 num den := by
    rw [floorLog2_eq hnum hden]
    exact (Int.zpow_le_iff_le_log (b := 2) (by decide) hq).mp (by exact_mod_cast hlarge)
  obtain ⟨n, hn⟩ : ∃ n : ℕ, floorLog2 num den = n + 52 :=
    ⟨(floorLog2 num den - 52).toNat, by omega⟩
  have hlow : den * 2 ^ n * 2 ^ 52 ≤ num := by
    have hpow : (2 : ℚ) ^ (n + 52 : ℤ) ≤ num / den := by
      rw [← hn, floorLog2_eq hnum hden]
      exact_mod_cast Int.zpow_log_le_self (b := 2) (by decide) hq
    rw [le_div_iff₀ hden', mul_comm] at hpow
    rw [mul_assoc, ← pow_add]
    exact_mod_cast hpow
  have hscale : max (floorLog2 num den - 52) (-1074) = n := by omega
  have hunits : exponentUnit ≤ nearestEven (num * power 2 (-(n : ℤ))) (den * power 2 n) := by
    rw [power_of_nonpos 2 (by omega : -(n : ℤ) ≤ 0), mul_one]
    exact le_nearestEven (Nat.mul_pos hden (power_pos (by decide) _)) hlow
  rw [nearestMagnitude, if_neg hnum.ne']
  simp only [hscale]
  have hexponent : 2046 ≤ ((n : ℤ) + 1074).toNat := by omega
  have hmul := Nat.mul_le_mul_right exponentUnit hexponent
  apply min_eq_right
  unfold infinityBits
  omega

theorem nearestMagnitude_of_small {num den k : ℕ} (hnum : 0 < num) (hk : 1076 ≤ k)
    (h : num * 2 ^ k ≤ den) : nearestMagnitude num den = 0 := by
  have hden : 0 < den := lt_of_lt_of_le (Nat.mul_pos hnum (Nat.two_pow_pos k)) h
  have hden' : (0 : ℚ) < den := by exact_mod_cast hden
  have hq : (0 : ℚ) < (num : ℚ) / den := by positivity
  have hsmall : (num : ℚ) / den < (2 : ℚ) ^ (-(k : ℤ) + 1) := by
    have hle : (num : ℚ) / den ≤ (2 : ℚ) ^ (-(k : ℤ)) := by
      rw [div_le_iff₀ hden', zpow_neg, inv_mul_eq_div, le_div_iff₀ (by positivity)]
      exact_mod_cast h
    exact lt_of_le_of_lt hle (zpow_lt_zpow_right₀ (by norm_num) (by omega))
  have hlog : floorLog2 num den < -k + 1 := by
    rw [floorLog2_eq hnum hden]
    exact (Int.lt_zpow_iff_log_lt (b := 2) (by decide) hq).mp (by exact_mod_cast hsmall)
  have hscale : max (floorLog2 num den - 52) (-1074) = -1074 := by omega
  have hunits : nearestEven (num * power 2 (-(-1074))) (den * power 2 (-1074)) = 0 := by
    obtain ⟨n, rfl⟩ : ∃ n, k = (-(-1074) : ℤ).toNat + n + 2 := ⟨k - 1076, by omega⟩
    have hpower : num * 2 ^ ((-(-1074) : ℤ).toNat + n + 2) =
        4 * (num * power 2 (-(-1074)) * 2 ^ n) := by
      rw [pow_add, pow_add, power, Nat.pow_eq]
      ring
    have hpos : 0 < num * power 2 (-(-1074)) := Nat.mul_pos hnum (power_pos (by decide) _)
    rw [hpower] at h
    rw [power_of_nonpos 2 (by decide : (-1074 : ℤ) ≤ 0), mul_one]
    apply nearestEven_of_small
    have hmul := Nat.le_mul_of_pos_right (num * power 2 (-(-1074))) (Nat.two_pow_pos n)
    omega
  rw [nearestMagnitude, if_neg hnum.ne']
  simp only [hscale, hunits]
  rfl

end CrowdScenario.Binary64

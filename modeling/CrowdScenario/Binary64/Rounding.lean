import CrowdScenario.Binary64

/-!
# The double nearest to an exact value

Ratios of whole numbers, decimals and whole numbers are rounded to the nearest double, a value
halfway between two doubles going to the one with the even significand; magnitudes that round
past the largest finite double become infinite.
-/

namespace CrowdScenario.Binary64

/-- `num / den` to the nearest whole number, halves to the even neighbour. -/
def nearestEven (num den : Nat) : Nat :=
  let floor := num / den
  let twice := 2 * (num % den)
  if den < twice ∨ (twice = den ∧ floor % 2 = 1) then floor + 1 else floor

/-- The largest `k` with `2 ^ k ≤ num / den`, for positive `num` and `den`. -/
def floorLog2 (num den : Nat) : Int :=
  let k : Int := (num.log2 : Int) - den.log2
  if num * power 2 (-k) < den * power 2 k then k - 1 else k

/-- The lower 63 bits of the double nearest to `num / den`. Units of `2 ^ e` are chosen so that 53
bits remain, or as many as the smallest unit leaves; a significand rounded up to 53 bits plus one
carries into the exponent by itself. -/
def nearestMagnitude (num den : Nat) : Nat :=
  if num = 0 then 0
  else
    let e := max (floorLog2 num den - 52) (-1074)
    let units := nearestEven (num * power 2 (-e)) (den * power 2 e)
    min ((e + 1074).toNat * exponentUnit + units) infinityBits

def ofRatio (negative : Bool) (num den : Nat) : Binary64 :=
  ofMagnitudeBits negative (nearestMagnitude num den)

def ofInt (n : Int) : Binary64 := ofRatio (n < 0) n.natAbs 1

/-- Exponents of ten beyond which a nonzero decimal is certainly infinite. -/
def largestDecimalExponent : Int := 400

/-- The double nearest to `digits * 10 ^ exponent`. Exponents so far out that the result can only
be infinite or zero are answered without forming the power of ten. -/
def ofDecimal (negative : Bool) (digits : Nat) (exponent : Int) : Binary64 :=
  if digits = 0 then ofMagnitudeBits negative 0
  else if largestDecimalExponent < exponent then infinity negative
  else if 3 * exponent + digits.log2 + 1 < -1100 then ofMagnitudeBits negative 0
  else ofRatio negative (digits * power 10 exponent) (power 10 (-exponent))

end CrowdScenario.Binary64

import CrowdScenario.Binary64

/-!
# Whole numbers from doubles

Truncation towards zero, rounding of halves away from zero, and the saturating conversion to a
64-bit integer. All are exact: a finite double is a ratio of whole numbers.
-/

namespace CrowdScenario.Binary64

def withSign (x : Binary64) (n : Nat) : Int := if x.isNegative then -(n : Int) else n

def truncate (x : Binary64) : Int := x.withSign (x.ratio.1 / x.ratio.2)

/-- A finite value to the nearest whole number, halves away from zero. -/
def roundHalfAway (x : Binary64) : Int :=
  x.withSign ((2 * x.ratio.1 + x.ratio.2) / (2 * x.ratio.2))

def smallestInt64 : Int := -0x8000000000000000

def largestInt64 : Int := 0x7fffffffffffffff

def saturate (n : Int) : Int64 := Int64.ofInt (max smallestInt64 (min largestInt64 n))

/-- Truncation into the 64-bit integers: values beyond either end stop there, a NaN gives zero. -/
def toInt64 (x : Binary64) : Int64 :=
  if x.isNaN then 0
  else if x.isInfinite then saturate (if x.isNegative then smallestInt64 else largestInt64)
  else saturate x.truncate

end CrowdScenario.Binary64

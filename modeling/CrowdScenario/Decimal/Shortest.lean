import CrowdScenario.Binary64.Rounding

/-!
# The fewest digits that read back

Every finite double has a decimal that rounds to it. `shortest` gives one with the fewest digits
and, among those, the one nearest to the double.
-/

namespace CrowdScenario

structure Decimal where
  digits : Nat
  exponent : Int
deriving DecidableEq

namespace Decimal

inductive Tie where
  | toEven
  | up

/-- Whether a tie goes to the lower decimal, whose digits are given. -/
def Tie.takesLower : Tie → Nat → Bool
  | toEven, digits => digits % 2 = 0
  | up, _ => false

/-- No more digits than these are needed to tell doubles apart. -/
def enoughDigits : Nat := 17

def readsBack (x : Binary64) (d : Decimal) : Bool :=
  Binary64.ofDecimal x.isNegative d.digits d.exponent = x

/-- The decimal with trailing zeros moved into the exponent, `fuel` of them at most. -/
def strip : Nat → Decimal → Decimal
  | 0, d => d
  | fuel + 1, d =>
    if d.digits % 10 = 0 ∧ d.digits ≠ 0 then strip fuel ⟨d.digits / 10, d.exponent + 1⟩ else d

def normalise (d : Decimal) : Decimal := strip (d.digits.log2 + 1) d

/-- The number of digits before the point, negative for leading zeros behind it: the least `k`
with `num / den < 10 ^ k`, searched near the estimate from the binary logarithm. -/
def magnitude (num den : Nat) : Int :=
  let estimate := Binary64.floorLog2 num den * 30103 / 100000
  let below (k : Int) : Bool := num * power 10 (-k) < den * power 10 k
  if below estimate then estimate
  else if below (estimate + 1) then estimate + 1
  else estimate + 2

/-- Of the two neighbours of the value on the grid `10 ^ exponent`, the nearest that reads back. -/
def onGrid (tie : Tie) (x : Binary64) (exponent : Int) : Option Decimal :=
  let num := x.ratio.1 * power 10 (-exponent)
  let den := x.ratio.2 * power 10 exponent
  let lower : Decimal := ⟨num / den, exponent⟩
  let upper : Decimal := ⟨num / den + 1, exponent⟩
  let twice := 2 * (num % den)
  let lowerFirst : Bool := twice < den ∨ (twice = den ∧ tie.takesLower lower.digits)
  let first := if lowerFirst then lower else upper
  let second := if lowerFirst then upper else lower
  if readsBack x first then some first
  else if readsBack x second then some second
  else none

def exact (x : Binary64) : Decimal :=
  if 0 ≤ x.scale then ⟨x.ratio.1, 0⟩ else ⟨x.significand * power 5 (-x.scale), x.scale⟩

def shortest (tie : Tie) (x : Binary64) : Decimal :=
  if x.isZero then ⟨0, 0⟩
  else
    let k := magnitude x.ratio.1 x.ratio.2
    let grids := (List.range enoughDigits).map fun n => k - (n + 1 : Nat)
    normalise ((grids.findSome? (onGrid tie x)).getD (exact x))

end Decimal

end CrowdScenario

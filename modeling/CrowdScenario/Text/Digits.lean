import CrowdScenario.Binary64.Integral

/-!
# Decimal digits

Runs of the digits `0` to `9` as whole numbers.
-/

namespace CrowdScenario.Text

def digitValue (c : Char) : Nat := c.toNat - '0'.toNat

/-- The whole number written with the given digits; none stand for zero. -/
def digitsValue (cs : List Char) : Nat := cs.foldl (fun n c => 10 * n + digitValue c) 0

/-- A sign, if there is one, and what follows it: whether the sign is a minus, and the rest. -/
def splitSign : List Char → Bool × List Char
  | '-' :: rest => (true, rest)
  | '+' :: rest => (false, rest)
  | cs => (false, cs)

/-- The 64-bit integer written as an optional sign and at least one digit. -/
def int64? (cs : List Char) : Option Int64 :=
  let (negative, digits) := splitSign cs
  if digits ≠ [] ∧ digits.all Char.isDigit then
    let n : Int := digitsValue digits
    let signed := if negative then -n else n
    if Binary64.smallestInt64 ≤ signed ∧ signed ≤ Binary64.largestInt64 then
      some (Int64.ofInt signed)
    else none
  else none

end CrowdScenario.Text

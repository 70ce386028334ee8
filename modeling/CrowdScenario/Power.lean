/-!
# Powers of whole numbers

Scales of binary and decimal numbers are powers with an exponent of either sign. A ratio of whole
numbers is scaled by a positive power above the line and a negative one below it.
-/

namespace CrowdScenario

/-- The power of a whole number, or one where the exponent is negative. -/
def power (base : Nat) (exponent : Int) : Nat := Nat.pow base exponent.toNat

theorem power_of_nonpos (base : Nat) {exponent : Int} (h : exponent ≤ 0) :
    power base exponent = 1 := by
  have h1 : exponent.toNat = 0 := by omega
  rw [power, h1]
  rfl

theorem power_pos {base : Nat} (h : 0 < base) (exponent : Int) : 0 < power base exponent :=
  Nat.pow_pos h

end CrowdScenario

import CrowdScenario.Bytes
import CrowdScenario.Power

/-!
# Binary floating point values

A double is kept as its 64 bits, so that equality is equality of bits: the two zeros differ, and a
NaN equals itself and keeps its payload. A finite value is `significand * 2 ^ scale` with a sign.
-/

namespace CrowdScenario

/-- An IEEE-754 double, told apart by its bits. -/
structure Binary64 where
  bits : UInt64
deriving DecidableEq

namespace Binary64

def signUnit : Nat := 0x8000000000000000

def exponentUnit : Nat := 0x10000000000000

def isNegative (x : Binary64) : Bool := signUnit ≤ x.bits.toNat

def exponentBits (x : Binary64) : Nat := x.bits.toNat / exponentUnit % 2048

def fractionBits (x : Binary64) : Nat := x.bits.toNat % exponentUnit

def isFinite (x : Binary64) : Bool := x.exponentBits < 2047

def isNaN (x : Binary64) : Bool := x.exponentBits = 2047 ∧ x.fractionBits ≠ 0

def isInfinite (x : Binary64) : Bool := x.exponentBits = 2047 ∧ x.fractionBits = 0

def isZero (x : Binary64) : Bool := x.exponentBits = 0 ∧ x.fractionBits = 0

/-- The value of the bit pattern without the sign, as a whole number of units. -/
def significand (x : Binary64) : Nat :=
  if x.exponentBits = 0 then x.fractionBits else exponentUnit + x.fractionBits

def scale (x : Binary64) : Int :=
  if x.exponentBits = 0 then -1074 else (x.exponentBits : Int) - 1075

def ratio (x : Binary64) : Nat × Nat :=
  (x.significand * power 2 x.scale, power 2 (-x.scale))

def ofMagnitudeBits (negative : Bool) (magnitude : Nat) : Binary64 :=
  ⟨UInt64.ofNat (if negative then signUnit + magnitude else magnitude)⟩

def zero : Binary64 := ⟨0⟩

def infinityBits : Nat := 2047 * exponentUnit

def infinity (negative : Bool) : Binary64 := ofMagnitudeBits negative infinityBits

def nan (negative : Bool) : Binary64 := ofMagnitudeBits negative (infinityBits + exponentUnit / 2)

def toBytes (x : Binary64) : Bytes := Bytes.littleEndian 8 x.bits.toNat

def ofBytes (bs : Bytes) : Binary64 := ⟨UInt64.ofNat (Bytes.ofLittleEndian bs)⟩

@[simp] theorem length_toBytes (x : Binary64) : x.toBytes.length = 8 := by simp [toBytes]

theorem ofBytes_toBytes (x : Binary64) : ofBytes x.toBytes = x := by
  have h : x.bits.toNat < Bytes.span 8 := x.bits.toNat_lt
  rw [ofBytes, toBytes, Bytes.ofLittleEndian_littleEndian, Nat.mod_eq_of_lt h]
  exact congrArg mk (UInt64.ofNat_toNat)

theorem toBytes_ofBytes {bs : Bytes} (h : bs.length = 8) : (ofBytes bs).toBytes = bs := by
  have hlt := Bytes.ofLittleEndian_lt bs
  rw [h] at hlt
  have hn : (UInt64.ofNat (Bytes.ofLittleEndian bs)).toNat = Bytes.ofLittleEndian bs :=
    UInt64.toNat_ofNat_of_lt' hlt
  rw [toBytes, ofBytes, hn, ← h]
  exact Bytes.littleEndian_ofLittleEndian bs

end Binary64

end CrowdScenario

import CrowdScenario.Bytes

/-!
# Document digests (`SPEC_FULL.md`, section 2)

A 64-bit fingerprint of a byte string: each byte is xored into the state, which is then multiplied
by a fixed odd number modulo `2 ^ 64`. The state after a byte string does not depend on how the
string was cut into pieces (`update_append`).
-/

namespace CrowdScenario

/-- The state of a fingerprint under way. -/
structure Digest where
  state : UInt64
deriving DecidableEq

namespace Digest

def initial : Digest := ⟨0xcbf29ce484222325⟩

def multiplier : UInt64 := 0x100000001b3

def absorb (d : Digest) (b : Byte) : Digest := ⟨(d.state ^^^ b.toUInt64) * multiplier⟩

def update (d : Digest) (bs : Bytes) : Digest := bs.foldl absorb d

@[simp] theorem update_nil (d : Digest) : d.update [] = d := rfl

theorem update_append (d : Digest) (xs ys : Bytes) :
    d.update (xs ++ ys) = (d.update xs).update ys := by
  simp only [update, List.foldl_append]

def ofBytes (bs : Bytes) : Digest := initial.update bs

def toHex (d : Digest) : String := Bytes.hexPadded 16 d.state.toNat

end Digest

end CrowdScenario

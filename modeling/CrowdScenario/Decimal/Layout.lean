import CrowdScenario.Decimal.Shortest

/-!
# Layout of decimal numbers

The digits of a double are chosen by `Decimal.shortest`; a `Layout` says how they are written.
-/

namespace CrowdScenario.Decimal

structure Layout where
  /-- Which way two equally near decimals are settled. -/
  tie : Tie
  /-- The first and last power of ten of the leading digit that is written positionally; without
  bounds every number is. -/
  positional : Option (Int × Int)
  /-- What follows a whole number written positionally. -/
  wholeSuffix : String
  /-- What stands before an exponent that is not negative. -/
  exponentSign : String

/-- Digits with a point after the first `point` of them, filled up with zeros. -/
def positionalText (layout : Layout) (digits : List Char) (point : Int) : String :=
  if point ≤ 0 then
    "0." ++ String.ofList (List.replicate (-point).toNat '0' ++ digits)
  else if digits.length ≤ point.toNat then
    String.ofList (digits ++ List.replicate (point.toNat - digits.length) '0')
      ++ layout.wholeSuffix
  else
    String.ofList (digits.take point.toNat) ++ "." ++ String.ofList (digits.drop point.toNat)

def scientificText (layout : Layout) (digits : List Char) (power : Int) : String :=
  let mantissa := match digits with
    | first :: rest@(_ :: _) => String.ofList (first :: '.' :: rest)
    | _ => String.ofList digits
  let sign := if power < 0 then "-" else layout.exponentSign
  mantissa ++ "e" ++ sign ++ toString power.natAbs

def render (layout : Layout) (x : Binary64) : String :=
  let sign := if x.isNegative then "-" else ""
  let d := shortest layout.tie x
  let digits := Nat.toDigits 10 d.digits
  if d.digits = 0 then sign ++ "0" ++ layout.wholeSuffix
  else
    let point : Int := digits.length + d.exponent
    let positional := match layout.positional with
      | none => true
      | some (low, high) => low < point ∧ point ≤ high + 1
    if positional then sign ++ positionalText layout digits point
    else sign ++ scientificText layout digits (point - 1)

/-- Numbers in messages and values: always positional, and a whole number without a point. -/
def plain : Layout := ⟨.up, none, "", ""⟩

def display (x : Binary64) : String :=
  if x.isNaN then "NaN"
  else if x.isInfinite then (if x.isNegative then "-inf" else "inf")
  else render plain x

end CrowdScenario.Decimal

import CrowdScenario.Binary64.Rounding
import CrowdScenario.Text.Digits

/-!
# Reading decimal numbers

Numbers as authors write them in texts: an optional sign, then digits with an optional point among
or around them and an optional power of ten, or a name of an infinity or of no number, in letters of
either case. What is written is rounded to the nearest double.
-/

namespace CrowdScenario.Decimal

def exponentPart? : List Char → Option Int
  | [] => some 0
  | c :: rest =>
    if c = 'e' ∨ c = 'E' then
      let (negative, digits) := Text.splitSign rest
      if digits ≠ [] ∧ digits.all Char.isDigit then
        let n : Int := Text.digitsValue digits
        some (if negative then -n else n)
      else none
    else none

/-- The digits after a point, if there is one, and what follows them. -/
def fractionPart : List Char → List Char × List Char
  | '.' :: rest => (rest.takeWhile Char.isDigit, rest.dropWhile Char.isDigit)
  | cs => ([], cs)

def unsigned? (negative : Bool) (cs : List Char) : Option Binary64 :=
  let whole := cs.takeWhile Char.isDigit
  let (fraction, rest) := fractionPart (cs.dropWhile Char.isDigit)
  if whole = [] ∧ fraction = [] then none
  else
    (exponentPart? rest).map fun exponent =>
      Binary64.ofDecimal negative (Text.digitsValue (whole ++ fraction))
        (exponent - fraction.length)

def parse? (cs : List Char) : Option Binary64 :=
  let (negative, rest) := Text.splitSign cs
  let name := String.ofList (rest.map Char.toLower)
  if name = "inf" ∨ name = "infinity" then some (.infinity negative)
  else if name = "nan" then some (.nan negative)
  else unsigned? negative rest

end CrowdScenario.Decimal

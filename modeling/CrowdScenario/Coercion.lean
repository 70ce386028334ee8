import CrowdScenario.Decimal.Reader
import CrowdScenario.Json.Printer
import CrowdScenario.Reference
import CrowdScenario.Text.Blank
import CrowdScenario.Value

/-!
# Coercion (`SPEC_FULL.md`, section 4.1)

A field takes its value from what an author wrote or from another value, and reads either as what
the field is meant to be: numbers from texts, texts from numbers, truth from words.
-/

namespace CrowdScenario

/-- Where a field takes its value from: an author's JSON or a resolved value. -/
inductive Input where
  | json (value : Json)
  | value (value : Value)

namespace Input

def describe : Input → String
  | json j => j.compact
  | value v => v.display

def reference? : Input → Option String
  | json (.string s) => if Reference.isReference s then some s else none
  | value (.text s) => if Reference.isReference s then some s else none
  | _ => none

def parseFloat? (s : String) : Option Binary64 := Decimal.parse? (Text.trim s.toList)

/-- The whole number in a text. A text that is no 64-bit integer may still be a finite number, which
is truncated. -/
def parseInt? (s : String) : Option Int64 :=
  match Text.int64? (Text.trim s.toList) with
  | some n => some n
  | none => ((parseFloat? s).filter (·.isFinite)).map (·.toInt64)

def parseTruth? (s : String) : Option Bool :=
  let word := String.ofList ((Text.trim s.toList).map Char.toLower)
  if word ∈ ["true", "yes", "on", "1"] then some true
  else if word ∈ ["false", "no", "off", "0"] then some false
  else none

/-- A JSON whole number that is a 64-bit integer, or the nearest double truncated. -/
def truncateInteger (n : Int) : Int64 :=
  if n ≤ Binary64.largestInt64 then Int64.ofInt n else (Binary64.ofInt n).toInt64

def int? : Input → Option Int64
  | json (.integer n) => some (truncateInteger n)
  | json (.float x) => some x.toInt64
  | json (.string s) => parseInt? s
  | value (.int n) => some n
  | value (.float x) => some x.toInt64
  | value (.text s) => parseInt? s
  | _ => none

def float? : Input → Option Binary64
  | json (.integer n) => some (Binary64.ofInt n)
  | json (.float x) => some x
  | json (.string s) => parseFloat? s
  | value (.text s) => parseFloat? s
  | value v => v.float?
  | _ => none

def text? : Input → Option String
  | json (.string s) => some s
  | json (.integer n) => some (Json.integer n).compact
  | json (.float x) => some (Json.float x).compact
  | json (.bool b) => some (Json.bool b).compact
  | value (.text s) => some s
  | value (.int n) => some (Value.int n).display
  | value (.float x) => some (Value.float x).display
  | value (.bool b) => some (Value.bool b).display
  | value (.choice name _) => some name
  | _ => none

def bool? : Input → Option Bool
  | json (.bool b) => some b
  | json (.integer n) => some (n ≠ 0)
  | json (.float x) => some (!x.isZero)
  | json (.string s) => parseTruth? s
  | value (.bool b) => some b
  | value (.int n) => some (n ≠ 0)
  | value (.float x) => some (!x.isZero)
  | value (.text s) => parseTruth? s
  | _ => none

def name? : Input → Option String
  | json (.string s) => some s
  | value (.text s) => some s
  | value (.choice name _) => some name
  | _ => none

end Input

end CrowdScenario

import CrowdScenario.Decimal.Layout
import CrowdScenario.Json.Basic

/-!
# Printing JSON (`SPEC_FULL.md`, section 12)

The compact form has no blanks; the spread form has a line for every item and indents by two
columns. Doubles are written with the fewest digits that read back, and always look different from
whole numbers.
-/

namespace CrowdScenario.Json

/-- Doubles are written positionally from `0.00001` up to, but not including, ten to the sixteenth;
a whole one keeps one zero behind the point, and a power of ten always has its sign. -/
def numberLayout : Decimal.Layout := ⟨.toEven, some (-5, 15), ".0", "+"⟩

def printChar (c : Char) : String :=
  if c = '"' then "\\\""
  else if c = '\\' then "\\\\"
  else if c = '\n' then "\\n"
  else if c = '\r' then "\\r"
  else if c = '\t' then "\\t"
  else if c = '\x08' then "\\b"
  else if c = '\x0c' then "\\f"
  else if c.toNat < 0x20 then "\\u" ++ Bytes.hexPadded 4 c.toNat
  else c.toString

def printString (s : String) : String := "\"" ++ String.join (s.toList.map printChar) ++ "\""

def printFloat (x : Binary64) : String :=
  if x.isFinite then Decimal.render numberLayout x else "null"

mutual

def compact : Json → String
  | null => "null"
  | bool b => if b then "true" else "false"
  | integer n => toString n
  | float x => printFloat x
  | string s => printString s
  | array items => "[" ++ String.intercalate "," (compactItems items) ++ "]"
  | object members => "\x7b" ++ String.intercalate "," (compactMembers members) ++ "\x7d"

def compactItems : List Json → List String
  | [] => []
  | v :: vs => compact v :: compactItems vs

def compactMembers : List (String × Json) → List String
  | [] => []
  | (name, v) :: ms => (printString name ++ ":" ++ compact v) :: compactMembers ms

end

def spreadBlock (opening closing : String) (depth : Nat) (items : List String) : String :=
  if items.isEmpty then opening ++ closing
  else
    let indent (n : Nat) := "\n" ++ String.ofList (List.replicate (2 * n) ' ')
    let lines := items.map (indent (depth + 1) ++ ·)
    opening ++ String.intercalate "," lines ++ indent depth ++ closing

mutual

/-- A value inside `depth` containers. -/
def spread (depth : Nat) : Json → String
  | array items => spreadBlock "[" "]" depth (spreadItems (depth + 1) items)
  | object members => spreadBlock "\x7b" "\x7d" depth (spreadMembers (depth + 1) members)
  | null => "null"
  | bool b => if b then "true" else "false"
  | integer n => toString n
  | float x => printFloat x
  | string s => printString s

def spreadItems (depth : Nat) : List Json → List String
  | [] => []
  | v :: vs => spread depth v :: spreadItems depth vs

def spreadMembers (depth : Nat) : List (String × Json) → List String
  | [] => []
  | (name, v) :: ms => (printString name ++ ": " ++ spread depth v) :: spreadMembers depth ms

end

end CrowdScenario.Json

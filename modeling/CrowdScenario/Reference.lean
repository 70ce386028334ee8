import CrowdScenario.Text.Parts

/-!
# References (`SPEC_FULL.md`, section 4.3)

A text that starts with `ref:` refers to another value of the description: field names from the root
on, with points between them, and tags in brackets that select from geometry.
-/

namespace CrowdScenario

inductive Segment where
  /-- A section, a field or a side value. -/
  | field (name : String)
  /-- The first record with a tag. -/
  | tag (name : String)
deriving DecidableEq

abbrev Reference := List Segment

namespace Reference

def mark : List Char := ['r', 'e', 'f', ':']

def isReference (text : String) : Bool := mark.isPrefixOf text.toList

def segment? : List Char → Option Segment
  | [] => none
  | '[' :: rest =>
    if rest.getLast? = some ']' ∧ rest.dropLast ≠ [] then
      some (.tag (String.ofList rest.dropLast))
    else none
  | cs => if ']' ∈ cs then none else some (.field (String.ofList cs))

def parse? (text : String) : Option Reference :=
  if isReference text then
    (Text.parts '.' (text.toList.drop mark.length)).mapM segment?
  else none

end Reference

end CrowdScenario

import CrowdScenario.Binary64.Rounding

/-!
# JSON values (`SPEC_FULL.md`, section 6)

Values as a reader delivers them: whole numbers that fit 64 bits stay whole, all others are doubles,
and the members of an object are ordered by name without repetition. A value that is only printed
may have its members in any order.
-/

namespace CrowdScenario

inductive Json where
  | null
  | bool (value : Bool)
  | integer (value : Int)
  | float (value : Binary64)
  | string (value : String)
  | array (items : List Json)
  | object (members : List (String × Json))

namespace Json

abbrev Members := List (String × Json)

def kindName : Json → String
  | null => "null"
  | bool _ => "boolean"
  | integer _ => "number"
  | float _ => "number"
  | string _ => "string"
  | array _ => "array"
  | object _ => "object"

def isNull : Json → Bool
  | null => true
  | _ => false

/-- A double as a JSON value; there is no number for a NaN or an infinity. -/
def ofBinary64 (x : Binary64) : Json := if x.isFinite then float x else null

def member? (members : Members) (name : String) : Option Json := members.lookup name

def supplied? (members : Members) (name : String) : Option Json :=
  (member? members name).filter fun value => !value.isNull

/-- Adds a member in its place in the order of names, or replaces the one with its name. -/
def insertMember (name : String) (value : Json) : Members → Members
  | [] => [(name, value)]
  | (name', value') :: rest =>
    if name = name' then (name, value) :: rest
    else if name < name' then (name, value) :: (name', value') :: rest
    else (name', value') :: insertMember name value rest

/-- Members in the order of their names; of several with one name the last counts. -/
def sortMembers (members : Members) : Members :=
  members.foldl (fun sorted m => insertMember m.1 m.2 sorted) []

end Json

end CrowdScenario

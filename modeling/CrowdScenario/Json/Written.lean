import CrowdScenario.Json.Token

/-!
# JSON as written (`SPEC_FULL.md`, section 6)

The tree of a JSON text before its values are looked at: members in the order of the text with all
their repetitions, numbers as digits, and containers nested as deep as the text has it. The tree is
put together token by token with the open containers on a stack. `Written.value?` gives the value of
a tree, or refuses it for a number that is too large, half a surrogate pair, or too deep a nesting.
-/

namespace CrowdScenario.Json

/-- The name of a member, unless it names half of a surrogate pair alone. -/
abbrev Label := Option String

inductive Written where
  | null
  | bool (value : Bool)
  | number (text : NumberText)
  | string (text : Option String)
  | array (items : List Written)
  | object (members : List (Label × Written))

/-- An open container with the items so far, newest first; in an object, the name of the member
whose value is under way. -/
inductive Frame where
  | array (items : List Written)
  | object (members : List (Label × Written)) (label : Label)

/-- What has been read and what may follow. -/
inductive Progress where
  /-- A value must follow. -/
  | value (stack : List Frame)
  /-- An array was opened: a value or its end. -/
  | arrayStart (stack : List Frame)
  /-- An item is complete: a comma or the end of the array. -/
  | inArray (stack : List Frame) (items : List Written)
  /-- An object was opened: a name or its end. -/
  | objectStart (stack : List Frame)
  /-- A name must follow. -/
  | label (stack : List Frame) (members : List (Label × Written))
  /-- A colon must follow. -/
  | colon (stack : List Frame) (members : List (Label × Written)) (label : Label)
  /-- A member is complete: a comma or the end of the object. -/
  | inObject (stack : List Frame) (members : List (Label × Written))
  /-- Nothing may follow. -/
  | finished (tree : Written)

namespace Progress

def complete (w : Written) : List Frame → Progress
  | [] => finished w
  | .array items :: stack => inArray stack (w :: items)
  | .object members name :: stack => inObject stack ((name, w) :: members)

/-- The token that starts a value inside the given open containers. -/
def startValue (stack : List Frame) : Token → Option Progress
  | .null => some (complete .null stack)
  | .bool b => some (complete (.bool b) stack)
  | .number n => some (complete (.number n) stack)
  | .string s => some (complete (.string s) stack)
  | .openArray => some (arrayStart stack)
  | .openObject => some (objectStart stack)
  | _ => none

def step : Progress → Token → Option Progress
  | value stack, t => startValue stack t
  | arrayStart stack, .closeArray => some (complete (.array []) stack)
  | arrayStart stack, t => startValue (.array [] :: stack) t
  | inArray stack items, .comma => some (value (.array items :: stack))
  | inArray stack items, .closeArray => some (complete (.array items.reverse) stack)
  | objectStart stack, .closeObject => some (complete (.object []) stack)
  | objectStart stack, .string s => some (colon stack [] s)
  | label stack members, .string s => some (colon stack members s)
  | colon stack members s, .colon => some (value (.object members s :: stack))
  | inObject stack members, .comma => some (label stack members)
  | inObject stack members, .closeObject =>
    some (complete (.object members.reverse) stack)
  | _, _ => none

def tree? : Progress → Option Written
  | finished w => some w
  | _ => none

end Progress

namespace Written

/-- The tree of a JSON text: exactly one value, with blanks around tokens. -/
def parse? (text : String) : Option Written := do
  let tokens ← tokens? text.toList
  let progress ← tokens.foldlM Progress.step (.value [])
  progress.tree?

def deepest : Nat := 127

mutual

def value? [DoubleReader] (depth : Nat) : Written → Option Json
  | null => some .null
  | bool b => some (.bool b)
  | number n => n.value?
  | string s => s.map .string
  | array items =>
    match depth with
    | 0 => none
    | depth + 1 => (values? depth items).map .array
  | object members =>
    match depth with
    | 0 => none
    | depth + 1 => (memberValues? depth members).map fun ms => .object (sortMembers ms)

def values? [DoubleReader] (depth : Nat) : List Written → Option (List Json)
  | [] => some []
  | w :: ws => do
    let v ← value? depth w
    let vs ← values? depth ws
    return v :: vs

def memberValues? [DoubleReader] (depth : Nat) : List (Label × Written) → Option Members
  | [] => some []
  | (label, w) :: ms => do
    let name ← label
    let v ← value? depth w
    let vs ← memberValues? depth ms
    return (name, v) :: vs

end

end Written

def parse? [DoubleReader] (text : String) : Option Json := do
  let tree ← Written.parse? text
  tree.value? Written.deepest

end CrowdScenario.Json

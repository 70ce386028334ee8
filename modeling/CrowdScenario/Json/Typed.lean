import CrowdScenario.Json.Written

/-!
# JSON of a fixed shape (`SPEC_FULL.md`, section 10)

Reading a tree that must be a structure with declared members, a choice among names, or a plain
value. A structure may be written as an object, in any order and with further members, or as an
array of its members in their order. Further members are not looked at, so their values need not
exist; a declared member must not be repeated.
-/

namespace CrowdScenario.Json.Written

def bool? : Written → Option Bool
  | bool b => some b
  | _ => none

def int64? : Written → Option Int64
  | number n =>
    n.integer?.bind fun i => if i ≤ Binary64.largestInt64 then some (Int64.ofInt i) else none
  | _ => none

def float? [DoubleReader] : Written → Option Binary64
  | number n =>
    match n.integer? with
    | some i => some (Binary64.ofInt i)
    | none => DoubleReader.double? n
  | _ => none

def listOf? {α : Type} (item? : Written → Option α) : Written → Option (List α)
  | array items => items.mapM item?
  | _ => none

/-- A name, or an object whose only member has that name and the value null. -/
def choice? {α : Type} (ofName? : String → Option α) : Written → Option α
  | string (some name) => ofName? name
  | object [(some name, null)] => ofName? name
  | _ => none

def labels? (members : List (Label × Written)) : Option (List String) := members.mapM (·.1)

def fields? (names : List String) : Written → Option (List (Option Written))
  | array items =>
    if items.length ≤ names.length then
      some ((List.range names.length).map fun i => items[i]?)
    else none
  | object members =>
    (labels? members).bind fun labels =>
      if names.all fun name => labels.count name ≤ 1 then
        some (names.map fun name => members.lookup (some name))
      else none
  | _ => none

end CrowdScenario.Json.Written

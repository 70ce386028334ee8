import CrowdScenario.Text.Parts

/-!
# File locations (`SPEC_FULL.md`, section 10)

Locations are texts of names separated by slashes. A location is absolute if it starts with a slash;
another one is looked up in a directory by joining the two.
-/

namespace CrowdScenario.Location

def isAbsolute (path : String) : Bool := path.toList.head? = some '/'

/-- Where a path leads from a directory. An empty directory adds nothing, and one that ends with a
slash needs no other. -/
def join (directory path : String) : String :=
  if isAbsolute path then path
  else if directory = "" ∨ directory.toList.getLast? = some '/' then directory ++ path
  else directory ++ "/" ++ path

/-- A path, last character first, without the empty names and single points at its end. -/
def dropIdle (reversed : List Char) : List Char :=
  let name := reversed.takeWhile (· ≠ '/')
  if name = [] ∨ name = ['.'] then
    match _h : reversed.dropWhile (· ≠ '/') with
    | [] => []
    | _ :: rest => dropIdle rest
  else reversed
termination_by reversed.length
decreasing_by
  have h1 := (List.dropWhile_suffix (l := reversed) (· ≠ '/')).length_le
  rw [_h] at h1
  simp only [List.length_cons] at h1
  omega

/-- The start of a path that no name is taken from, the slash of an absolute path or a single point,
and the rest. -/
def splitHead : List Char → List Char × List Char
  | '/' :: rest => (['/'], rest)
  | ['.'] => (['.'], [])
  | '.' :: '/' :: rest => (['.'], '/' :: rest)
  | cs => ([], cs)

/-- The directory of a path: the path without its last name. The root and the empty path have
none. -/
def parent? (path : String) : Option String :=
  let (head, body) := splitHead path.toList
  let named := dropIdle body.reverse
  if named = [] then (if head = ['.'] then some "" else none)
  else
    let before := dropIdle ((named.dropWhile (· ≠ '/')).drop 1)
    some (String.ofList (head ++ before.reverse))

def names (path : String) : List String := (Text.parts '/' path.toList).map String.ofList

end CrowdScenario.Location

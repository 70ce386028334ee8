import CrowdScenario.Text.Digits

/-!
# XML attributes (`SPEC_FULL.md`, section 11)

The text of a tag behind its name holds attributes: a name, an equals sign and a quoted value, each
with blanks around it or none. No name may come twice. In a value, references to the five named
characters and to code points are replaced; there are no others.
-/

namespace CrowdScenario.Xml

def isSpace (c : Char) : Bool := c = ' ' ∨ c = '\t' ∨ c = '\r' ∨ c = '\n'

def skipSpace (cs : List Char) : List Char := cs.dropWhile isSpace

def numeral? (base : Nat) (digits : List Char) : Option Nat :=
  if digits = [] then none
  else digits.foldlM (fun n c => (digit? c).map (base * n + ·)) 0
where
  /-- The value of a digit below the base. -/
  digit? (c : Char) : Option Nat :=
    let value :=
      if c.isDigit then some (c.toNat - '0'.toNat)
      else if 'a' ≤ c ∧ c ≤ 'f' then some (c.toNat - 'a'.toNat + 10)
      else if 'A' ≤ c ∧ c ≤ 'F' then some (c.toNat - 'A'.toNat + 10)
      else none
    value.filter (· < base)

def character? (code : Nat) : Option Char :=
  if code ≠ 0 ∧ code.isValidChar then some (Char.ofNat code) else none

/-- The character that stands between an ampersand and a semicolon. -/
def entity? : List Char → Option Char
  | '#' :: 'x' :: digits => (numeral? 16 digits).bind character?
  | '#' :: digits => (numeral? 10 digits).bind character?
  | ['l', 't'] => some '<'
  | ['g', 't'] => some '>'
  | ['a', 'm', 'p'] => some '&'
  | ['q', 'u', 'o', 't'] => some '"'
  | ['a', 'p', 'o', 's'] => some '\''
  | _ => none

/-- A value with its references replaced, behind the characters so far, newest first. Inside a
reference the characters since the ampersand are kept, newest first, too. -/
def unescape? (done : List Char) (reference : Option (List Char)) : List Char → Option (List Char)
  | [] => if reference.isNone then some done.reverse else none
  | c :: cs =>
    match reference with
    | none => if c = '&' then unescape? done (some []) cs else unescape? (c :: done) none cs
    | some name =>
      if c = '&' then none
      else if c = ';' then
        match entity? name.reverse with
        | some e => unescape? (e :: done) none cs
        | none => none
      else unescape? done (some (c :: name)) cs

abbrev Attribute := String × String

def attributeValue? (cs : List Char) : Option (String × List Char) :=
  match skipSpace cs with
  | '=' :: rest =>
    match skipSpace rest with
    | q :: body =>
      if q = '"' ∨ q = '\'' then
        match body.dropWhile (· ≠ q) with
        | _ :: rest =>
          (unescape? [] none (body.takeWhile (· ≠ q))).map fun v => (String.ofList v, rest)
        | [] => none
      else none
    | [] => none
  | _ => none

theorem length_skipSpace_le (cs : List Char) : (skipSpace cs).length ≤ cs.length :=
  (List.dropWhile_suffix _).length_le

theorem attributeValue?_length {cs rest : List Char} {v : String}
    (h : attributeValue? cs = some (v, rest)) : rest.length ≤ cs.length := by
  unfold attributeValue? at h
  have h1 := length_skipSpace_le cs
  split at h
  · next tail heq =>
    rw [heq] at h1
    have h2 := length_skipSpace_le tail
    split at h
    · next q body heq' =>
      rw [heq'] at h2
      split at h
      · split at h
        · next x r hr =>
          have h3 := (List.dropWhile_suffix (l := body) (· ≠ q)).length_le
          rw [hr] at h3
          obtain ⟨w, -, hw⟩ := Option.map_eq_some_iff.mp h
          cases hw
          simp only [List.length_cons] at h1 h2 h3
          omega
        · cases h
      · cases h
    · cases h
  · cases h

/-- The attributes in a text, behind those found so far, newest first. -/
def scanAttributes? (found : List Attribute) (cs : List Char) : Option (List Attribute) :=
  match _h : skipSpace cs with
  | [] => some found.reverse
  | c :: rest =>
    let inName (c : Char) : Bool := c ≠ '=' ∧ ¬isSpace c
    let name := String.ofList (c :: rest.takeWhile inName)
    match _hv : attributeValue? (rest.dropWhile inName) with
    | none => none
    | some (value, behind) =>
      if found.any (·.1 = name) then none else scanAttributes? ((name, value) :: found) behind
termination_by cs.length
decreasing_by
  have h1 := length_skipSpace_le cs
  have h2 := attributeValue?_length _hv
  have h3 := (List.dropWhile_suffix (l := rest) inName).length_le
  rw [_h] at h1
  simp only [List.length_cons] at h1
  omega

def attributes? (cs : List Char) : Option (List Attribute) := scanAttributes? [] cs

end CrowdScenario.Xml

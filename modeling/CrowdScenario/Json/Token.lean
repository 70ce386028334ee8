import CrowdScenario.Json.Basic
import CrowdScenario.Text.Digits

/-!
# JSON tokens (`SPEC_FULL.md`, section 6)

A text is cut into tokens from left to right. A string is decoded on the way; one that names half of
a surrogate pair alone has no text, which only matters where the string is looked at. A number keeps
its digits, since it is only looked at later whether they fit.
-/

namespace CrowdScenario.Json

/-- A number as written: `digits * 10 ^ exponent`, and whether there was neither a point nor a power
of ten. -/
structure NumberText where
  negative : Bool
  digits : Nat
  exponent : Int
  isWhole : Bool
deriving DecidableEq

/-- How the digits of a number become a double, if they are in range. A reader need not find the double
that is nearest. -/
class DoubleReader where
  double? : NumberText → Option Binary64

namespace NumberText

def largestUnsigned : Int := 0xffffffffffffffff

/-- The number as a whole number of 64 bits. A negative zero is none. -/
def integer? (n : NumberText) : Option Int :=
  let signed : Int := if n.negative then -(n.digits : Int) else n.digits
  if n.isWhole ∧ Binary64.smallestInt64 ≤ signed ∧ signed ≤ largestUnsigned ∧
      ¬(n.negative ∧ n.digits = 0) then some signed
  else none

def nearest? (n : NumberText) : Option Binary64 :=
  let x := Binary64.ofDecimal n.negative n.digits n.exponent
  if x.isFinite then some x else none

/-- Correct rounding, where no other reader is given. -/
instance (priority := low) rounding : DoubleReader := ⟨nearest?⟩

/-- The value of a number: a whole number of 64 bits, or else a double. -/
def value? [DoubleReader] (n : NumberText) : Option Json :=
  match n.integer? with
  | some i => some (.integer i)
  | none => (DoubleReader.double? n).map .float

end NumberText

def isWholeDigits : List Char → Bool
  | [] => false
  | ['0'] => true
  | '0' :: _ => false
  | _ => true

/-- The digits after a point and what follows; a point needs a digit. -/
def fractionDigits? : List Char → Option (List Char × List Char)
  | '.' :: rest =>
    let digits := rest.takeWhile Char.isDigit
    if digits = [] then none else some (digits, rest.dropWhile Char.isDigit)
  | cs => some ([], cs)

/-- The power of ten and what follows, or nothing and zero; a power needs a digit. -/
def powerDigits? : List Char → Option (Option Int × List Char)
  | [] => some (none, [])
  | c :: cs =>
    if c = 'e' ∨ c = 'E' then
      let (negative, rest) := Text.splitSign cs
      let digits := rest.takeWhile Char.isDigit
      let n : Int := Text.digitsValue digits
      if digits = [] then none
      else some (some (if negative then -n else n), rest.dropWhile Char.isDigit)
    else some (none, c :: cs)

def scanNumber? (cs : List Char) : Option (NumberText × List Char) :=
  let (negative, rest) := match cs with
    | '-' :: rest => (true, rest)
    | cs => (false, cs)
  let whole := rest.takeWhile Char.isDigit
  if isWholeDigits whole then
    match fractionDigits? (rest.dropWhile Char.isDigit) with
    | none => none
    | some (fraction, rest) =>
      (powerDigits? rest).map fun (power, rest) =>
        (⟨negative, Text.digitsValue (whole ++ fraction), power.getD 0 - fraction.length,
          fraction = [] ∧ power = none⟩, rest)
  else none

def hexValue? (c : Char) : Option Nat :=
  if c.isDigit then some (c.toNat - '0'.toNat)
  else if 'a' ≤ c ∧ c ≤ 'f' then some (c.toNat - 'a'.toNat + 10)
  else if 'A' ≤ c ∧ c ≤ 'F' then some (c.toNat - 'A'.toNat + 10)
  else none

def unit? (a b c d : Char) : Option Nat := do
  let a ← hexValue? a
  let b ← hexValue? b
  let c ← hexValue? c
  let d ← hexValue? d
  return ((a * 16 + b) * 16 + c) * 16 + d

def escaped? : Char → Option Char
  | '"' => some '"'
  | '\\' => some '\\'
  | '/' => some '/'
  | 'b' => some '\x08'
  | 'f' => some '\x0c'
  | 'n' => some '\n'
  | 'r' => some '\r'
  | 't' => some '\t'
  | _ => none

/-- A string under way: the characters so far, newest first, the first half of a surrogate pair if
the second must follow, and whether a half stood alone. -/
structure Spelling where
  characters : List Char
  half : Option Nat
  broken : Bool

namespace Spelling

def start : Spelling := ⟨[], none, false⟩

def push (s : Spelling) (c : Char) : Spelling :=
  ⟨c :: s.characters, none, s.broken || s.half.isSome⟩

def pushUnit (s : Spelling) (unit : Nat) : Spelling :=
  if 0xDC00 ≤ unit ∧ unit ≤ 0xDFFF then
    match s.half with
    | some high =>
      let code := 0x10000 + (high - 0xD800) * 0x400 + (unit - 0xDC00)
      ⟨Char.ofNat code :: s.characters, none, s.broken⟩
    | none => ⟨s.characters, none, true⟩
  else if 0xD800 ≤ unit ∧ unit ≤ 0xDBFF then
    ⟨s.characters, some unit, s.broken || s.half.isSome⟩
  else s.push (Char.ofNat unit)

def text? (s : Spelling) : Option String :=
  if s.broken || s.half.isSome then none else some (String.ofList s.characters.reverse)

end Spelling

/-- The rest of a string up to its closing quote, and what follows. -/
def scanString? : Spelling → List Char → Option (Option String × List Char)
  | _, [] => none
  | s, '"' :: rest => some (s.text?, rest)
  | s, '\\' :: 'u' :: a :: b :: c :: d :: rest =>
    match unit? a b c d with
    | some unit => scanString? (s.pushUnit unit) rest
    | none => none
  | s, '\\' :: c :: rest =>
    match escaped? c with
    | some c => scanString? (s.push c) rest
    | none => none
  | s, c :: rest => if c.toNat < 0x20 ∨ c = '\\' then none else scanString? (s.push c) rest

/-! ### Tokens -/

inductive Token where
  | openArray
  | closeArray
  | openObject
  | closeObject
  | colon
  | comma
  | null
  | bool (value : Bool)
  | number (text : NumberText)
  | string (text : Option String)

def isSpace (c : Char) : Bool := c = ' ' ∨ c = '\n' ∨ c = '\t' ∨ c = '\r'

def scanToken? (c : Char) (rest : List Char) : Option (Token × List Char) :=
  match c with
  | '[' => some (.openArray, rest)
  | ']' => some (.closeArray, rest)
  | '{' => some (.openObject, rest)
  | '}' => some (.closeObject, rest)
  | ':' => some (.colon, rest)
  | ',' => some (.comma, rest)
  | '"' => (scanString? .start rest).map fun (text, rest) => (.string text, rest)
  | _ =>
    match c :: rest with
    | 'n' :: 'u' :: 'l' :: 'l' :: rest => some (.null, rest)
    | 't' :: 'r' :: 'u' :: 'e' :: rest => some (.bool true, rest)
    | 'f' :: 'a' :: 'l' :: 's' :: 'e' :: rest => some (.bool false, rest)
    | cs => (scanNumber? cs).map fun (number, rest) => (.number number, rest)

theorem length_dropWhile_le (p : Char → Bool) (cs : List Char) :
    (cs.dropWhile p).length ≤ cs.length :=
  (List.dropWhile_suffix p).length_le

theorem length_dropWhile_lt {p : Char → Bool} {cs : List Char} (h : cs.takeWhile p ≠ []) :
    (cs.dropWhile p).length < cs.length := by
  have hsum := congrArg List.length (List.takeWhile_append_dropWhile (p := p) (l := cs))
  have hpos := List.length_pos_iff.mpr h
  rw [List.length_append] at hsum
  omega

theorem fractionDigits?_length {cs digits rest : List Char}
    (h : fractionDigits? cs = some (digits, rest)) : rest.length ≤ cs.length := by
  unfold fractionDigits? at h
  split at h
  · next tail =>
    dsimp only at h
    split at h
    · cases h
    · cases h
      have := length_dropWhile_le Char.isDigit tail
      simp only [List.length_cons]
      omega
  · cases h
    exact Nat.le_refl _

theorem splitSign_length (cs : List Char) : (Text.splitSign cs).2.length ≤ cs.length := by
  unfold Text.splitSign
  split <;> simp

theorem powerDigits?_length {cs rest : List Char} {power : Option Int}
    (h : powerDigits? cs = some (power, rest)) : rest.length ≤ cs.length := by
  unfold powerDigits? at h
  split at h
  · cases h
    exact Nat.le_refl _
  · next c tail =>
    split at h
    · dsimp only at h
      split at h
      · cases h
      · cases h
        have h1 := splitSign_length tail
        have h2 := length_dropWhile_le Char.isDigit (Text.splitSign tail).2
        simp only [List.length_cons]
        omega
    · cases h
      exact Nat.le_refl _

theorem scanNumber?_length {cs rest : List Char} {n : NumberText}
    (h : scanNumber? cs = some (n, rest)) : rest.length < cs.length := by
  have key : ∀ (negative : Bool) (body : List Char), body.length ≤ cs.length →
      (if isWholeDigits (body.takeWhile Char.isDigit) then
        match fractionDigits? (body.dropWhile Char.isDigit) with
        | none => none
        | some (fraction, rest) =>
          (powerDigits? rest).map fun (power, rest) =>
            ((⟨negative, Text.digitsValue (body.takeWhile Char.isDigit ++ fraction),
              power.getD 0 - fraction.length, fraction = [] ∧ power = none⟩ : NumberText), rest)
      else none) = some (n, rest) → rest.length < cs.length := by
    intro negative body hbody hk
    split at hk
    · next hw =>
      have hne : body.takeWhile Char.isDigit ≠ [] := by
        intro hnil
        rw [hnil] at hw
        cases hw
      have h1 := length_dropWhile_lt hne
      split at hk
      · cases hk
      · next fraction mid hf =>
        have h2 := fractionDigits?_length hf
        obtain ⟨⟨power, last⟩, hp, heq⟩ := Option.map_eq_some_iff.mp hk
        cases heq
        have h3 := powerDigits?_length hp
        omega
    · cases hk
  unfold scanNumber? at h
  split at h
  next negative body hsplit =>
  refine key negative body ?_ h
  split at hsplit <;> cases hsplit <;> simp

theorem scanString?_length {s : Spelling} {cs rest : List Char} {text : Option String}
    (h : scanString? s cs = some (text, rest)) : rest.length < cs.length := by
  fun_induction scanString? s cs with
  | case1 => cases h
  | case2 =>
    cases h
    simp
  | case3 _ _ _ _ _ _ _ _ ih =>
    have := ih h
    simp only [List.length_cons]
    omega
  | case4 => cases h
  | case5 _ _ _ _ _ _ ih =>
    have := ih h
    simp only [List.length_cons]
    omega
  | case6 => cases h
  | case7 => cases h
  | case8 _ _ _ _ _ _ _ ih =>
    have := ih h
    simp only [List.length_cons]
    omega

theorem scanToken?_length {c : Char} {cs rest : List Char} {t : Token}
    (h : scanToken? c cs = some (t, rest)) : rest.length ≤ cs.length := by
  unfold scanToken? at h
  split at h
  all_goals try (cases h; exact Nat.le_refl _)
  · obtain ⟨⟨text, last⟩, hs, heq⟩ := Option.map_eq_some_iff.mp h
    cases heq
    exact Nat.le_of_lt (scanString?_length hs)
  · split at h
    · next heq =>
      cases heq
      cases h
      simp only [List.length_cons]
      omega
    · next heq =>
      cases heq
      cases h
      simp only [List.length_cons]
      omega
    · next heq =>
      cases heq
      cases h
      simp only [List.length_cons]
      omega
    · obtain ⟨⟨number, last⟩, hs, heq⟩ := Option.map_eq_some_iff.mp h
      cases heq
      have := scanNumber?_length hs
      simp only [List.length_cons] at this
      omega

/-- The tokens of a text behind those found so far, newest first. -/
def scanTokens? (found : List Token) : List Char → Option (List Token)
  | [] => some found.reverse
  | c :: cs =>
    if isSpace c then scanTokens? found cs
    else
      match _h : scanToken? c cs with
      | none => none
      | some (t, rest) => scanTokens? (t :: found) rest
termination_by cs => cs.length
decreasing_by
  · simp
  · have := scanToken?_length _h
    simp only [List.length_cons]
    omega

def tokens? (cs : List Char) : Option (List Token) := scanTokens? [] cs

end CrowdScenario.Json

import CrowdScenario.Xml.Attribute

/-!
# XML tags (`SPEC_FULL.md`, section 11)

A text is read for its tags: what opens an element or is one by itself. Text between tags, comments,
character data, declarations and processing instructions are passed over. The tags that close
elements must match the ones that opened them, innermost first; elements may stay open at the end.
-/

namespace CrowdScenario.Xml

/-- A tag that opens an element: its name and the text behind the name. -/
structure Tag where
  name : String
  body : List Char
deriving DecidableEq

namespace Tag

def localName (t : Tag) : String :=
  let cs := t.name.toList
  if cs.contains ':' then String.ofList ((cs.dropWhile (· ≠ ':')).drop 1) else t.name

def attributes? (t : Tag) : Option (List Attribute) := Xml.attributes? t.body

def ofText (cs : List Char) : Tag :=
  ⟨String.ofList (cs.takeWhile (!isSpace ·)), cs.dropWhile (!isSpace ·)⟩

end Tag

/-- What stands between an opening angle bracket and its end. -/
inductive Markup where
  | opening (tag : Tag)
  | empty (tag : Tag)
  | closing (name : String)
  | other

/-- The text up to the first closing angle bracket outside quotes, and what follows it. -/
def cutTag? (done : List Char) (quote : Option Char) : List Char → Option (List Char × List Char)
  | [] => none
  | c :: cs =>
    match quote with
    | some q => cutTag? (c :: done) (if c = q then none else quote) cs
    | none =>
      if c = '>' then some (done.reverse, cs)
      else cutTag? (c :: done) (if c = '"' ∨ c = '\'' then some c else none) cs

def cutAfter? (mark : List Char) : List Char → Option (List Char)
  | [] => if mark = [] then some [] else none
  | c :: cs => if mark.isPrefixOf (c :: cs) then some ((c :: cs).drop mark.length)
    else cutAfter? mark cs

/-- The text of a document type up to its closing angle bracket, `depth` others being open, and what
follows it; the flag tells whether anything but blanks was found. -/
def cutDocumentType? (depth : Nat) (named : Bool) : List Char → Option (List Char)
  | [] => none
  | c :: cs =>
    if c = '<' then cutDocumentType? (depth + 1) true cs
    else if c = '>' then
      match depth with
      | 0 => if named then some cs else none
      | depth + 1 => cutDocumentType? depth true cs
    else cutDocumentType? depth (named || !isSpace c) cs

def skipDeclaration? : List Char → Option (List Char)
  | '-' :: '-' :: cs => cutAfter? ['-', '-', '>'] cs
  | '[' :: 'C' :: 'D' :: 'A' :: 'T' :: 'A' :: '[' :: cs => cutAfter? [']', ']', '>'] cs
  | cs =>
    if (cs.take 7).map Char.toUpper = ['D', 'O', 'C', 'T', 'Y', 'P', 'E'] then
      cutDocumentType? 0 false (cs.drop 7)
    else none

def skipInstruction? : List Char → Option (List Char)
  | '>' :: _ => none
  | cs => cutAfter? ['?', '>'] cs

/-- The name in a closing tag, without blanks behind it unless there is nothing else. -/
def closingName (cs : List Char) : String :=
  let trimmed := (cs.reverse.dropWhile isSpace).reverse
  String.ofList (if trimmed = [] then cs else trimmed)

def Markup.ofText : List Char → Markup
  | '/' :: name => closing (closingName name)
  | cs => if cs.getLast? = some '/' then empty (.ofText cs.dropLast) else opening (.ofText cs)

/-- The markup behind an opening angle bracket, and what follows it. -/
def markup? : List Char → Option (Markup × List Char)
  | '!' :: cs => (skipDeclaration? cs).map (.other, ·)
  | '?' :: cs => (skipInstruction? cs).map (.other, ·)
  | [] => none
  | cs => (cutTag? [] none cs).map fun (text, rest) => (.ofText text, rest)

theorem cutTag?_length {done cs text rest : List Char} {quote : Option Char}
    (h : cutTag? done quote cs = some (text, rest)) : rest.length ≤ cs.length := by
  induction cs generalizing done quote with
  | nil => cases h
  | cons c cs ih =>
    simp only [List.length_cons]
    cases quote with
    | some q => exact Nat.le_succ_of_le (ih h)
    | none =>
      simp only [cutTag?] at h
      split at h
      · cases h
        omega
      · exact Nat.le_succ_of_le (ih h)

theorem cutAfter?_length {mark cs rest : List Char} (h : cutAfter? mark cs = some rest) :
    rest.length ≤ cs.length := by
  induction cs with
  | nil =>
    simp only [cutAfter?] at h
    split at h
    · cases h
      exact Nat.le_refl _
    · cases h
  | cons c cs ih =>
    simp only [cutAfter?] at h
    split at h
    · cases h
      simp only [List.length_drop]
      omega
    · exact Nat.le_succ_of_le (ih h)

theorem cutDocumentType?_length {depth : Nat} {named : Bool} {cs rest : List Char}
    (h : cutDocumentType? depth named cs = some rest) : rest.length ≤ cs.length := by
  induction cs generalizing depth named with
  | nil => cases h
  | cons c cs ih =>
    simp only [List.length_cons]
    simp only [cutDocumentType?] at h
    split at h
    · exact Nat.le_succ_of_le (ih h)
    · split at h
      · cases depth with
        | zero =>
          simp only at h
          split at h
          · cases h
            omega
          · cases h
        | succ depth => exact Nat.le_succ_of_le (ih h)
      · exact Nat.le_succ_of_le (ih h)

theorem skipDeclaration?_length {cs rest : List Char} (h : skipDeclaration? cs = some rest) :
    rest.length ≤ cs.length := by
  unfold skipDeclaration? at h
  split at h
  · have := cutAfter?_length h
    simp only [List.length_cons]
    omega
  · have := cutAfter?_length h
    simp only [List.length_cons]
    omega
  · split at h
    · have := cutDocumentType?_length h
      simp only [List.length_drop] at this
      omega
    · cases h

theorem skipInstruction?_length {cs rest : List Char} (h : skipInstruction? cs = some rest) :
    rest.length ≤ cs.length := by
  unfold skipInstruction? at h
  split at h
  · cases h
  · exact cutAfter?_length h

theorem markup?_length {cs rest : List Char} {m : Markup} (h : markup? cs = some (m, rest)) :
    rest.length ≤ cs.length := by
  unfold markup? at h
  split at h
  · obtain ⟨r, hr, heq⟩ := Option.map_eq_some_iff.mp h
    cases heq
    exact Nat.le_succ_of_le (skipDeclaration?_length hr)
  · obtain ⟨r, hr, heq⟩ := Option.map_eq_some_iff.mp h
    cases heq
    exact Nat.le_succ_of_le (skipInstruction?_length hr)
  · cases h
  · obtain ⟨⟨text, r⟩, hr, heq⟩ := Option.map_eq_some_iff.mp h
    cases heq
    exact cutTag?_length hr

/-- The tags of a text up to its end or its first defect, and whether there was a defect. -/
structure Reading where
  tags : List Tag
  isDefective : Bool
deriving DecidableEq

/-- Reads on, with the tags found so far and the names of the open elements, both newest first. -/
def readFrom (found : List Tag) (names : List String) (cs : List Char) : Reading :=
  match _h : cs.dropWhile (· ≠ '<') with
  | [] => ⟨found.reverse, false⟩
  | _ :: rest =>
    match _hm : markup? rest with
    | none => ⟨found.reverse, true⟩
    | some (.other, rest) => readFrom found names rest
    | some (.opening tag, rest) => readFrom (tag :: found) (tag.name :: names) rest
    | some (.empty tag, rest) => readFrom (tag :: found) names rest
    | some (.closing name, rest) =>
      match names with
      | [] => ⟨found.reverse, true⟩
      | innermost :: names =>
        if name = innermost then readFrom found names rest else ⟨found.reverse, true⟩
termination_by cs.length
decreasing_by
  all_goals
    have h1 := (List.dropWhile_suffix (l := cs) (· ≠ '<')).length_le
    have h2 := markup?_length _hm
    rw [_h] at h1
    simp only [List.length_cons] at h1
    omega

def read (cs : List Char) : Reading :=
  match cs with
  | '\ufeff' :: rest => readFrom [] [] rest
  | cs => readFrom [] [] cs

end CrowdScenario.Xml

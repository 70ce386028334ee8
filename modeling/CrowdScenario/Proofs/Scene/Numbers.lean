import CrowdScenario.Proofs.Text.Digits
import CrowdScenario.Scene.Extraction

/-!
# Numbers in scene documents

A number in an attribute is what its text starts with, cut off at the largest 64-bit integer and at
the negative of it. The digits are taken one by one and the running value is cut off at each of
them, which is the same as cutting off the number in the end. The far corner of a rectangle is an
exact sum or refused (`Scene.corners_exact_or_refused`).
-/

namespace CrowdScenario

open Binary64 (smallestInt64 largestInt64)

namespace Text

/-- A text cut into the blanks before a whole number, the number and what follows it. -/
structure Leading (cs : List Char) where
  blanks : List Char
  sign : List Char
  digits : List Char
  rest : List Char
  eq_append : cs = blanks ++ (sign ++ (digits ++ rest))
  blank : ∀ c ∈ blanks, isBlank c = true
  isSign : sign = [] ∨ sign = ['+'] ∨ sign = ['-']
  digit : ∀ c ∈ digits, c.isDigit = true
  /-- The run of digits is the longest. -/
  stops : StopsBefore Char.isDigit rest
  /-- Without a sign and digits, nothing else is left that could be passed over. -/
  bare : sign = [] → digits = [] → StopsBefore isBlank rest ∧ StopsBefore (· ∈ ['+', '-']) rest

/-- The number that a text starts with; no digits make zero. -/
def Leading.value {cs : List Char} (l : Leading cs) : Int :=
  if l.sign = ['-'] then -(digitsValue l.digits : Int) else digitsValue l.digits

theorem splitSign_of_stops {cs : List Char} (h : StopsBefore (· ∈ ['+', '-']) cs) :
    splitSign cs = (false, cs) := by
  cases cs with
  | nil => rfl
  | cons c cs =>
    have hc : c ≠ '+' ∧ c ≠ '-' := by simpa using h c rfl
    rw [splitSign]
    · exact fun _ heq => hc.2 (List.cons.inj heq).1
    · exact fun _ heq => hc.1 (List.cons.inj heq).1

namespace Leading

variable {cs : List Char} (l : Leading cs)

theorem stops_digits (h : l.sign = []) :
    StopsBefore isBlank (l.digits ++ l.rest) ∧
      StopsBefore (· ∈ ['+', '-']) (l.digits ++ l.rest) := by
  cases hdigits : l.digits with
  | nil => exact l.bare h hdigits
  | cons c ds =>
    have hc : c.isDigit = true := l.digit c (by rw [hdigits]; exact List.mem_cons_self)
    refine ⟨stopsBefore_cons (not_isBlank_of_isDigit hc), stopsBefore_cons ?_⟩
    rw [decide_eq_false_iff_not]
    intro hmem
    simp only [List.mem_cons, List.not_mem_nil, or_false] at hmem
    rcases hmem with rfl | rfl <;> cases hc

theorem trimStart_eq : trimStart cs = l.sign ++ (l.digits ++ l.rest) := by
  have hstops : StopsBefore isBlank (l.sign ++ (l.digits ++ l.rest)) := by
    rcases l.isSign with h | h | h
    · rw [h]
      exact (l.stops_digits h).1
    · rw [h]
      exact stopsBefore_cons (by decide)
    · rw [h]
      exact stopsBefore_cons (by decide)
  rw [trimStart]
  conv => lhs; rw [l.eq_append]
  exact dropWhile_run l.blank hstops

theorem splitSign_eq :
    splitSign (trimStart cs) = (decide (l.sign = ['-']), l.digits ++ l.rest) := by
  rw [l.trimStart_eq]
  rcases l.isSign with h | h | h
  · rw [h]
    exact splitSign_of_stops (l.stops_digits h).2
  · rw [h]
    rfl
  · rw [h]
    rfl

theorem nonempty (cs : List Char) : Nonempty (Leading cs) := by
  have hcut : cs = cs.takeWhile isBlank ++ trimStart cs := List.takeWhile_append_dropWhile.symm
  have hblank : ∀ c ∈ cs.takeWhile isBlank, isBlank c = true := fun _ => List.mem_takeWhile_imp
  have hrest : ∀ ds : List Char, ds = ds.takeWhile Char.isDigit ++ ds.dropWhile Char.isDigit :=
    fun _ => List.takeWhile_append_dropWhile.symm
  have hdigit : ∀ ds : List Char, ∀ c ∈ ds.takeWhile Char.isDigit, c.isDigit = true :=
    fun _ _ => List.mem_takeWhile_imp
  have hsigned : ∀ c ds, c = '+' ∨ c = '-' → trimStart cs = c :: ds → Nonempty (Leading cs) := by
    intro c ds hc htrim
    refine ⟨⟨_, [c], _, _, ?_, hblank, ?_, hdigit ds, stopsBefore_dropWhile _ ds, nofun⟩⟩
    · rw [← hrest ds, List.singleton_append, ← htrim]
      exact hcut
    · rcases hc with rfl | rfl
      · exact .inr (.inl rfl)
      · exact .inr (.inr rfl)
  cases htrim : trimStart cs with
  | nil =>
    rw [htrim] at hcut
    exact ⟨⟨_, [], [], [], hcut, hblank, .inl rfl, nofun, stopsBefore_nil _,
      fun _ _ => ⟨stopsBefore_nil _, stopsBefore_nil _⟩⟩⟩
  | cons c ds =>
    by_cases hc : c = '+' ∨ c = '-'
    · exact hsigned c ds hc htrim
    · have hbare : (c :: ds).takeWhile Char.isDigit = [] →
          (c :: ds).dropWhile Char.isDigit = c :: ds := by
        intro hnil
        have happend := hrest (c :: ds)
        rw [hnil] at happend
        exact happend.symm
      refine ⟨⟨_, [], _, _, ?_, hblank, .inl rfl, hdigit (c :: ds),
        stopsBefore_dropWhile _ (c :: ds), fun _ hnil => ?_⟩⟩
      · rw [List.nil_append, ← hrest (c :: ds), ← htrim]
        exact hcut
      · rw [hbare hnil]
        constructor
        · rw [← htrim]
          exact stopsBefore_dropWhile isBlank cs
        · exact stopsBefore_cons (by simpa using hc)

end Leading

end Text

namespace Scene

open Text Xml

def cutOff (n : Int) : Int := max (-largestInt64) (min largestInt64 n)

theorem cutOff_bounds (n : Int) : -largestInt64 ≤ cutOff n ∧ cutOff n ≤ largestInt64 := by
  unfold cutOff largestInt64
  omega

theorem pushDigit_min (m : Nat) (c : Char) :
    pushDigit (min largestInt64 m) c = min largestInt64 (10 * m + digitValue c : Nat) := by
  unfold pushDigit largestInt64
  omega

/-- Cutting off at every digit is cutting off in the end. -/
theorem foldl_pushDigit (ds : List Char) :
    ds.foldl pushDigit 0 = min largestInt64 (digitsValue ds) := by
  -- The digits come from the left, so the last one is pushed onto those before it.
  induction ds using List.reverseRecOn with
  | nil => rfl
  | append_singleton ds c ih =>
    rw [List.foldl_append, ih, List.foldl_cons, List.foldl_nil, pushDigit_min,
      digitsValue_concat]

theorem leadingInteger_eq {cs : List Char} (l : Leading cs) :
    leadingInteger cs = cutOff l.value := by
  have hdigits : (l.digits ++ l.rest).takeWhile Char.isDigit = l.digits :=
    takeWhile_run l.digit l.stops
  rw [leadingInteger, l.splitSign_eq]
  simp only [hdigits, foldl_pushDigit, decide_eq_true_eq]
  unfold Leading.value cutOff
  split <;> unfold largestInt64 <;> omega

theorem number_bounds (attributes : List Attribute) (name : String) :
    -largestInt64 ≤ number attributes name ∧ number attributes name ≤ largestInt64 := by
  unfold number
  split
  · next value _ =>
    obtain ⟨l⟩ := Leading.nonempty value.toList
    rw [leadingInteger_eq l]
    exact cutOff_bounds l.value
  · decide

def Fits (n : Int) : Prop := smallestInt64 ≤ n ∧ n ≤ largestInt64

instance (n : Int) : Decidable (Fits n) := inferInstanceAs (Decidable (_ ∧ _))

theorem toInt_ofInt {n : Int} (h : Fits n) : (Int64.ofInt n).toInt = n :=
  Int64.toInt_ofInt_of_le h.1 (by unfold Fits largestInt64 at h; omega)

theorem fits_toInt (n : Int64) : Fits n.toInt :=
  ⟨n.le_toInt, n.toInt_le⟩

theorem toInt_member (attributes : List Attribute) (name : String) :
    (member attributes name).toInt = number attributes name := by
  obtain ⟨hlow, hhigh⟩ := number_bounds attributes name
  apply toInt_ofInt
  unfold Fits smallestInt64
  unfold largestInt64 at *
  omega

section
variable {attributes : List Attribute}

def exactCorners (attributes : List Attribute) : Corners where
  x0 := member attributes "x"
  y0 := member attributes "y"
  x1 := Int64.ofInt (number attributes "x" + number attributes "width")
  y1 := Int64.ofInt (number attributes "y" + number attributes "height")

theorem rectangleCorners_of_fits (hx : Fits (number attributes "x" + number attributes "width"))
    (hy : Fits (number attributes "y" + number attributes "height")) :
    rectangleCorners attributes = .ok (exactCorners attributes) := by
  have hright : farEdge attributes "x" "width" = .ok _ := if_pos hx
  have hbottom : farEdge attributes "y" "height" = .ok _ := if_pos hy
  rw [rectangleCorners, hright, hbottom]
  rfl

theorem rectangleCorners_of_wide
    (hx : ¬Fits (number attributes "x" + number attributes "width")) :
    rectangleCorners attributes = .error (.overflow "x" "width") := by
  have hright : farEdge attributes "x" "width" = .error _ := if_neg hx
  rw [rectangleCorners, hright]
  rfl

theorem rectangleCorners_of_tall (hx : Fits (number attributes "x" + number attributes "width"))
    (hy : ¬Fits (number attributes "y" + number attributes "height")) :
    rectangleCorners attributes = .error (.overflow "y" "height") := by
  have hright : farEdge attributes "x" "width" = .ok _ := if_pos hx
  have hbottom : farEdge attributes "y" "height" = .error _ := if_neg hy
  rw [rectangleCorners, hright, hbottom]
  rfl

theorem toInt_exactCorners (hx : Fits (number attributes "x" + number attributes "width"))
    (hy : Fits (number attributes "y" + number attributes "height")) (c : Corners) :
    exactCorners attributes = c ↔
      c.x0.toInt = number attributes "x" ∧ c.y0.toInt = number attributes "y" ∧
        c.x1.toInt = number attributes "x" + number attributes "width" ∧
        c.y1.toInt = number attributes "y" + number attributes "height" := by
  constructor
  · rintro rfl
    exact ⟨toInt_member _ _, toInt_member _ _, toInt_ofInt hx, toInt_ofInt hy⟩
  · rintro ⟨hx0, hy0, hx1, hy1⟩
    rw [← toInt_member, Int64.toInt_inj] at hx0 hy0
    rw [exactCorners, ← hx1, ← hy1, Int64.ofInt_toInt, Int64.ofInt_toInt, ← hx0, ← hy0]

theorem rectangleCorners_eq_ok {c : Corners} :
    rectangleCorners attributes = .ok c ↔
      c.x0.toInt = number attributes "x" ∧ c.y0.toInt = number attributes "y" ∧
        c.x1.toInt = number attributes "x" + number attributes "width" ∧
        c.y1.toInt = number attributes "y" + number attributes "height" := by
  by_cases hx : Fits (number attributes "x" + number attributes "width")
  · by_cases hy : Fits (number attributes "y" + number attributes "height")
    · rw [rectangleCorners_of_fits hx hy, Except.ok.injEq]
      exact toInt_exactCorners hx hy c
    · rw [rectangleCorners_of_tall hx hy]
      exact ⟨nofun, fun h => absurd (h.2.2.2 ▸ fits_toInt c.y1) hy⟩
  · rw [rectangleCorners_of_wide hx]
    exact ⟨nofun, fun h => absurd (h.2.2.1 ▸ fits_toInt c.x1) hx⟩

theorem rectangleCorners_eq_error {e : SceneDefect} :
    rectangleCorners attributes = .error e ↔
      ¬Fits (number attributes "x" + number attributes "width") ∧ e = .overflow "x" "width" ∨
        Fits (number attributes "x" + number attributes "width") ∧
          ¬Fits (number attributes "y" + number attributes "height") ∧
          e = .overflow "y" "height" := by
  by_cases hx : Fits (number attributes "x" + number attributes "width")
  · by_cases hy : Fits (number attributes "y" + number attributes "height")
    · simp [rectangleCorners_of_fits hx hy, hx, hy]
    · simp [rectangleCorners_of_tall hx hy, hx, hy, eq_comm]
  · simp [rectangleCorners_of_wide hx, hx, eq_comm]

end

/-- A number in an attribute is the one that its text starts with, cut off beyond 63 bits and the
sign, and zero if there is none. The corners of a rectangle are the exact sums of such numbers. They
are refused exactly if a sum is no 64-bit integer, and the first such sum is named. -/
theorem corners_exact_or_refused (attributes : List Attribute) :
    (∀ name,
      (∀ value, attributes.lookup name = some value →
        Nonempty (Leading value.toList) ∧ ∀ l : Leading value.toList,
          (member attributes name).toInt = max (-(2 ^ 63 - 1)) (min (2 ^ 63 - 1) l.value)) ∧
      (attributes.lookup name = none → (member attributes name).toInt = 0)) ∧
    let x := (member attributes "x").toInt
    let y := (member attributes "y").toInt
    let width := (member attributes "width").toInt
    let height := (member attributes "height").toInt
    (∀ c, rectangleCorners attributes = .ok c ↔
      c.x0.toInt = x ∧ c.y0.toInt = y ∧ c.x1.toInt = x + width ∧ c.y1.toInt = y + height) ∧
    ((∃ c, rectangleCorners attributes = .ok c) ↔ Fits (x + width) ∧ Fits (y + height)) ∧
    ∀ e, rectangleCorners attributes = .error e ↔
      ¬Fits (x + width) ∧ e = .overflow "x" "width" ∨
        Fits (x + width) ∧ ¬Fits (y + height) ∧ e = .overflow "y" "height" := by
  simp only [toInt_member]
  refine ⟨fun name => ⟨fun value hvalue => ?_, fun hnone => ?_⟩,
    fun c => rectangleCorners_eq_ok, ⟨?_, ?_⟩, fun e => rectangleCorners_eq_error⟩
  · refine ⟨Leading.nonempty _, fun l => ?_⟩
    rw [number, hvalue]
    exact leadingInteger_eq l
  · rw [number, hnone]
  · rintro ⟨c, hc⟩
    obtain ⟨-, -, hx1, hy1⟩ := rectangleCorners_eq_ok.mp hc
    rw [← hx1, ← hy1]
    exact ⟨fits_toInt c.x1, fits_toInt c.y1⟩
  · rintro ⟨hx, hy⟩
    exact ⟨_, rectangleCorners_of_fits hx hy⟩

namespace Tall

/-- A rectangle that only fits to the right, since its left edge is left of zero. -/
def attributes : List Attribute :=
  [("x", " -4.9px"), ("y", "+7"), ("width", "99999999999999999999"),
    ("height", "9223372036854775807")]

def width : Leading "99999999999999999999".toList where
  blanks := []
  sign := []
  digits := List.replicate 20 '9'
  rest := []
  eq_append := by decide
  blank := nofun
  isSign := .inl rfl
  digit := fun c hc => by
    rw [List.eq_of_mem_replicate hc]
    rfl
  stops := nofun
  bare := nofun

end Tall

open Tall in
theorem corners_exact_or_refused_tall :
    attributes.lookup "width" = some "99999999999999999999" ∧
      (member attributes "width").toInt = 9223372036854775807 ∧
      rectangleCorners attributes = .error (.overflow "y" "height") := by
  obtain ⟨hmember, -, -, herror⟩ := corners_exact_or_refused attributes
  have hlookup : attributes.lookup "width" = some "99999999999999999999" := by decide
  obtain ⟨-, hvalue⟩ := (hmember "width").1 _ hlookup
  refine ⟨hlookup, (hvalue width).trans (by decide), (herror _).mpr (.inr ?_)⟩
  simp only [toInt_member]
  decide +kernel

end Scene

end CrowdScenario

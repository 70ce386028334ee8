import CrowdScenario.Json.Printer
import CrowdScenario.Json.Token
import CrowdScenario.Proofs.Decimal.ReadsBack
import CrowdScenario.Proofs.Text.Digits

/-!
# Printed numbers

A number is printed in pieces: a sign, whole digits, digits behind a point and a power of ten. In
front of whatever does not continue a number the pieces are found again
(`Json.Pieces.scanNumber?_text`), and those of a finite double have the double as their value
(`Json.Pieces.nearest?_ofFloat`).
-/

namespace CrowdScenario

namespace Text

theorem isDigit_of_toDigits {n : ℕ} : ∀ c ∈ Nat.toDigits 10 n, c.isDigit = true :=
  fun _ hc => Nat.isDigit_of_mem_toDigits (by decide) le_rfl hc

theorem isDigit_of_zeros {k : ℕ} : ∀ c ∈ List.replicate k '0', c.isDigit = true := by
  intro c hc
  rw [List.eq_of_mem_replicate hc]
  rfl

theorem digitsValue_toDigits (n : ℕ) : digitsValue (Nat.toDigits 10 n) = n :=
  Nat.ofDigitChars_ten_toDigits

theorem digitsValue_replicate_zero (k : ℕ) : digitsValue (List.replicate k '0') = 0 := by
  have hzeros : Nat.ofDigitChars 10 (List.replicate k '0') 0 = 10 ^ k * 0 :=
    Nat.ofDigitChars_replicate_zero
  rwa [Nat.mul_zero] at hzeros

theorem digitsValue_zeros_append (k : ℕ) (cs : List Char) :
    digitsValue (List.replicate k '0' ++ cs) = digitsValue cs := by
  rw [digitsValue_append, digitsValue_replicate_zero, Nat.mul_zero, Nat.zero_add]

theorem digitsValue_append_zeros (cs : List Char) (k : ℕ) :
    digitsValue (cs ++ List.replicate k '0') = 10 ^ k * digitsValue cs := by
  rw [digitsValue_append, digitsValue_replicate_zero, List.length_replicate, Nat.add_zero]

theorem toDigits_eq_cons {n : ℕ} (hn : 0 < n) :
    ∃ c cs, Nat.toDigits 10 n = c :: cs ∧ c ≠ '0' := by
  induction n using Nat.strong_induction_on with
  | _ n ih =>
    rw [Nat.toDigits_eq_if (by decide)]
    split
    · next hless =>
      refine ⟨_, [], rfl, ?_⟩
      rw [ne_eq, Nat.digitChar_eq_zero]
      omega
    · obtain ⟨c, cs, hcs, hc⟩ := ih (n / 10) (by omega) (by omega)
      exact ⟨c, cs ++ [(n % 10).digitChar], by rw [hcs]; rfl, hc⟩

end Text

namespace Json

open Text

/-- Whether a character may be part of a number that has begun. -/
def continuesNumber (c : Char) : Bool := c.isDigit || c = '.' || c = 'e' || c = 'E'

theorem stops_digits {rest : List Char} (h : StopsBefore continuesNumber rest) :
    StopsBefore Char.isDigit rest := by
  intro c hc
  have hstop := h c hc
  simp only [continuesNumber, Bool.or_eq_false_iff] at hstop
  exact hstop.1.1.1

theorem isWholeDigits_cons {c : Char} {cs : List Char} (h : c ≠ '0') :
    isWholeDigits (c :: cs) = true := by
  rw [isWholeDigits] <;> simp [h]

theorem isWholeDigits_toDigits (n : ℕ) : isWholeDigits (Nat.toDigits 10 n) = true := by
  rcases Nat.eq_zero_or_pos n with rfl | hn
  · rfl
  · obtain ⟨c, cs, hcs, hc⟩ := toDigits_eq_cons hn
    rw [hcs]
    exact isWholeDigits_cons hc

theorem fractionDigits?_point {fraction rest : List Char} (hne : fraction ≠ [])
    (hdigits : ∀ c ∈ fraction, c.isDigit = true) (hrest : StopsBefore Char.isDigit rest) :
    fractionDigits? ('.' :: (fraction ++ rest)) = some (fraction, rest) := by
  simp only [fractionDigits?, takeWhile_run hdigits hrest, dropWhile_run hdigits hrest, if_neg hne]

theorem fractionDigits?_none {rest : List Char} (h : ∀ tail, rest ≠ '.' :: tail) :
    fractionDigits? rest = some ([], rest) := by
  unfold fractionDigits?
  split
  · next tail => exact absurd rfl (h tail)
  · rfl

theorem powerDigits?_none {rest : List Char} (h : StopsBefore continuesNumber rest) :
    powerDigits? rest = some (none, rest) := by
  cases rest with
  | nil => rfl
  | cons c cs =>
    have hstop := h c rfl
    simp only [continuesNumber, Bool.or_eq_false_iff, decide_eq_false_iff_not] at hstop
    rw [powerDigits?, if_neg (not_or.mpr ⟨hstop.1.2, hstop.2⟩)]

def powerText (power : ℤ) : List Char :=
  'e' :: (if power < 0 then '-' else '+') :: Nat.toDigits 10 power.natAbs

theorem powerDigits?_powerText (power : ℤ) {rest : List Char}
    (hrest : StopsBefore Char.isDigit rest) :
    powerDigits? (powerText power ++ rest) = some (some power, rest) := by
  have hsplit : splitSign ((if power < 0 then '-' else '+') ::
      (Nat.toDigits 10 power.natAbs ++ rest)) =
      (decide (power < 0), Nat.toDigits 10 power.natAbs ++ rest) := by
    by_cases hneg : power < 0 <;> simp [hneg, splitSign]
  have hvalue : (if power < 0 then -(power.natAbs : ℤ) else power.natAbs) = power := by
    split <;> omega
  simp only [powerText, List.cons_append, powerDigits?, true_or, ↓reduceIte, hsplit,
    takeWhile_run isDigit_of_toDigits hrest, dropWhile_run isDigit_of_toDigits hrest,
    if_neg Nat.toDigits_ne_nil, digitsValue_toDigits, decide_eq_true_eq, hvalue]

/-- What a number is printed in; without digits behind the point there is no point. -/
structure Pieces where
  negative : Bool
  whole : List Char
  fraction : List Char
  power : Option ℤ

namespace Pieces

structure Valid (p : Pieces) : Prop where
  whole : isWholeDigits p.whole = true
  whole_digits : ∀ c ∈ p.whole, c.isDigit = true
  fraction_digits : ∀ c ∈ p.fraction, c.isDigit = true

def signText (p : Pieces) : List Char := if p.negative then ['-'] else []

def fractionText (p : Pieces) : List Char := if p.fraction = [] then [] else '.' :: p.fraction

def text (p : Pieces) : List Char :=
  p.signText ++ (p.whole ++ (p.fractionText ++ (p.power.map powerText).getD []))

def number (p : Pieces) : NumberText where
  negative := p.negative
  digits := digitsValue (p.whole ++ p.fraction)
  exponent := p.power.getD 0 - p.fraction.length
  isWhole := p.fraction = [] ∧ p.power = none

theorem powerDigits?_text (p : Pieces) {rest : List Char}
    (hrest : StopsBefore continuesNumber rest) :
    powerDigits? ((p.power.map powerText).getD [] ++ rest) = some (p.power, rest) := by
  cases p.power with
  | none => exact powerDigits?_none hrest
  | some power => exact powerDigits?_powerText power (stops_digits hrest)

theorem power_stops (p : Pieces) {rest : List Char} (hrest : StopsBefore continuesNumber rest) :
    StopsBefore Char.isDigit ((p.power.map powerText).getD [] ++ rest) ∧
      ∀ tail, (p.power.map powerText).getD [] ++ rest ≠ '.' :: tail := by
  cases p.power with
  | some power => exact ⟨stopsBefore_cons rfl, by simp [powerText]⟩
  | none =>
    refine ⟨stops_digits hrest, ?_⟩
    rintro tail rfl
    cases hrest '.' rfl

theorem fractionDigits?_text {p : Pieces} (h : p.Valid) {rest : List Char}
    (hstop : StopsBefore Char.isDigit rest) (hpoint : ∀ tail, rest ≠ '.' :: tail) :
    StopsBefore Char.isDigit (p.fractionText ++ rest) ∧
      fractionDigits? (p.fractionText ++ rest) = some (p.fraction, rest) := by
  unfold fractionText
  split
  · next hnil =>
    rw [hnil, List.nil_append]
    exact ⟨hstop, fractionDigits?_none hpoint⟩
  · next hne => exact ⟨stopsBefore_cons rfl, fractionDigits?_point hne h.fraction_digits hstop⟩

theorem whole_eq_cons {p : Pieces} (h : p.Valid) :
    ∃ c cs, p.whole = c :: cs ∧ c.isDigit = true := by
  cases hwhole : p.whole with
  | nil =>
    have hvalid := h.whole
    rw [hwhole] at hvalid
    cases hvalid
  | cons c cs => exact ⟨c, cs, rfl, h.whole_digits c (by simp [hwhole])⟩

/-- The pieces of a number are found again in front of what does not continue it. -/
theorem scanNumber?_text {p : Pieces} (h : p.Valid) {rest : List Char}
    (hrest : StopsBefore continuesNumber rest) :
    scanNumber? (p.text ++ rest) = some (p.number, rest) := by
  obtain ⟨hstop, hpoint⟩ := p.power_stops hrest
  obtain ⟨hstop', hfraction⟩ := fractionDigits?_text h hstop hpoint
  have hpower := p.powerDigits?_text hrest
  obtain ⟨c, cs, hcs, hc⟩ := whole_eq_cons h
  simp only [text, List.append_assoc]
  unfold scanNumber?
  split
  next negative body hsplit =>
  obtain ⟨rfl, rfl⟩ : negative = p.negative ∧
      body = p.whole ++ (p.fractionText ++ ((p.power.map powerText).getD [] ++ rest)) := by
    rw [signText, hcs] at hsplit
    cases hnegative : p.negative with
    | true =>
      rw [hnegative] at hsplit
      cases hsplit
      exact ⟨rfl, by rw [hcs]; rfl⟩
    | false =>
      simp only [hnegative, Bool.false_eq_true, ↓reduceIte, List.nil_append,
        List.cons_append] at hsplit
      split at hsplit
      · next heq =>
        cases heq
        cases hc
      · cases hsplit
        exact ⟨rfl, by rw [hcs]; rfl⟩
  simp only [takeWhile_run h.whole_digits hstop', dropWhile_run h.whole_digits hstop',
    h.whole, ↓reduceIte, hfraction, hpower, Option.map_some]
  rfl

/-! ### Whole numbers -/

def ofInt (n : ℤ) : Pieces := ⟨n < 0, Nat.toDigits 10 n.natAbs, [], none⟩

theorem valid_ofInt (n : ℤ) : (ofInt n).Valid :=
  ⟨isWholeDigits_toDigits _, isDigit_of_toDigits, List.forall_mem_nil _⟩

theorem text_ofInt (n : ℤ) : (toString n).toList = (ofInt n).text := by
  have hrepr : ∀ k : ℕ, k.repr = String.ofList (Nat.toDigits 10 k) := fun _ => rfl
  have htext : (ofInt n).text = (if n < 0 then ['-'] else []) ++ Nat.toDigits 10 n.natAbs := by
    simp [text, ofInt, signText, fractionText]
  rw [htext, Int.toString_eq_repr]
  cases n with
  | ofNat k => simp [Int.repr, hrepr]
  | negSucc k => simp [Int.repr, hrepr, Int.negSucc_lt_zero]

def positional (negative : Bool) (digits : List Char) (point : ℤ) : Pieces :=
  if point ≤ 0 then ⟨negative, ['0'], List.replicate (-point).toNat '0' ++ digits, none⟩
  else if digits.length ≤ point.toNat then
    ⟨negative, digits ++ List.replicate (point.toNat - digits.length) '0', ['0'], none⟩
  else ⟨negative, digits.take point.toNat, digits.drop point.toNat, none⟩

def scientific (negative : Bool) (digits : List Char) (power : ℤ) : Pieces :=
  ⟨negative, digits.take 1, digits.drop 1, some power⟩

def Reads (p : Pieces) (x : Binary64) : Prop :=
  (p.fraction ≠ [] ∨ p.power ≠ none) ∧
    Binary64.ofDecimal p.number.negative p.number.digits p.number.exponent = x

def ofFloat (x : Binary64) : Pieces :=
  let d := Decimal.shortest .toEven x
  let digits := Nat.toDigits 10 d.digits
  let point : ℤ := digits.length + d.exponent
  if d.digits = 0 then ⟨x.isNegative, ['0'], ['0'], none⟩
  else if -5 < point ∧ point ≤ 16 then positional x.isNegative digits point
  else scientific x.isNegative digits (point - 1)

section

variable {negative : Bool} {c : Char} {cs : List Char} {point power : ℤ}

theorem valid_positional (hc : c ≠ '0') (hdigits : ∀ b ∈ c :: cs, b.isDigit = true) :
    (positional negative (c :: cs) point).Valid := by
  have hzero : ∀ b ∈ ['0'], b.isDigit = true := isDigit_of_zeros (k := 1)
  unfold positional
  split
  · refine ⟨rfl, hzero, fun b hb => ?_⟩
    exact (List.mem_append.mp hb).elim (isDigit_of_zeros b) (hdigits b)
  · split
    · refine ⟨isWholeDigits_cons hc, fun b hb => ?_, hzero⟩
      exact (List.mem_append.mp hb).elim (hdigits b) (isDigit_of_zeros b)
    · next hpos _ =>
      obtain ⟨n, hn⟩ : ∃ n, point.toNat = n + 1 := ⟨point.toNat - 1, by omega⟩
      rw [hn]
      exact ⟨isWholeDigits_cons hc, fun b hb => hdigits b (List.mem_of_mem_take hb),
        fun b hb => hdigits b (List.mem_of_mem_drop hb)⟩

theorem valid_scientific (hc : c ≠ '0') (hdigits : ∀ b ∈ c :: cs, b.isDigit = true) :
    (scientific negative (c :: cs) power).Valid :=
  ⟨isWholeDigits_cons hc, fun b hb => hdigits b (List.mem_of_mem_take hb),
    fun b hb => hdigits b (List.mem_of_mem_drop hb)⟩

theorem text_positional :
    (positional negative (c :: cs) point).text = (if negative then ['-'] else []) ++
      (Decimal.positionalText numberLayout (c :: cs) point).toList := by
  unfold positional Decimal.positionalText
  split
  · simp [text, signText, fractionText]
  · split
    · simp [text, signText, fractionText, numberLayout]
    · next hpos hlength =>
      have hne : (c :: cs).drop point.toNat ≠ [] := by
        rw [ne_eq, List.drop_eq_nil_iff]
        exact hlength
      simp only [text, signText, fractionText, if_neg hne, Option.map_none, Option.getD_none,
        List.append_nil, String.toList_append, String.toList_ofList, List.append_assoc]
      rfl

theorem text_scientific :
    (scientific negative (c :: cs) power).text = (if negative then ['-'] else []) ++
      (Decimal.scientificText numberLayout (c :: cs) power).toList := by
  have hsign : (if power < 0 then "-" else numberLayout.exponentSign).toList =
      [if power < 0 then '-' else '+'] := by
    split <;> rfl
  cases cs <;>
    simp [text, scientific, signText, fractionText, Decimal.scientificText, powerText, hsign]

theorem reads_positional (negative : Bool) (c : Char) (cs : List Char) (point : ℤ) :
    (positional negative (c :: cs) point).Reads
      (.ofDecimal negative (digitsValue (c :: cs)) (point - (c :: cs).length)) := by
  unfold positional
  split
  · next hpoint =>
    -- Zeros before the digits do not count.
    have hdigits : digitsValue ('0' :: (List.replicate (-point).toNat '0' ++ c :: cs)) =
        digitsValue (c :: cs) := digitsValue_zeros_append ((-point).toNat + 1) _
    have hexponent : (0 : ℤ) - (List.replicate (-point).toNat '0' ++ c :: cs).length =
        point - (c :: cs).length := by
      rw [List.length_append, List.length_replicate]
      omega
    refine ⟨.inl (by simp), ?_⟩
    simp only [number, List.cons_append, List.nil_append, hdigits, Option.getD_none, hexponent]
  · split
    · next hpos hlength =>
      -- Zeros behind the digits, and the one behind the point, are powers of ten.
      set k := point.toNat - (c :: cs).length with hk
      have hdigits : digitsValue (c :: cs ++ List.replicate k '0' ++ ['0']) =
          10 ^ (k + 1) * digitsValue (c :: cs) := by
        rw [List.append_assoc, ← digitsValue_append_zeros, List.replicate_succ']
      have hexponent : (0 : ℤ) - ['0'].length + (k + 1 : ℕ) = point - (c :: cs).length := by
        rw [List.length_singleton]
        omega
      refine ⟨.inl (by simp), ?_⟩
      simp only [number, hdigits, Binary64.ofDecimal_zeros, Option.getD_none, hexponent]
    · next hpos hlength =>
      have hexponent : (0 : ℤ) - ((c :: cs).drop point.toNat).length =
          point - (c :: cs).length := by
        rw [List.length_drop]
        omega
      refine ⟨.inl (by simpa using hlength), ?_⟩
      simp only [number, List.take_append_drop, Option.getD_none, hexponent]

theorem reads_scientific (negative : Bool) (c : Char) (cs : List Char) (power : ℤ) :
    (scientific negative (c :: cs) power).Reads
      (.ofDecimal negative (digitsValue (c :: cs)) (power + 1 - (c :: cs).length)) := by
  have hexponent : power - ((c :: cs).drop 1).length = power + 1 - (c :: cs).length := by
    rw [List.length_drop, List.length_cons]
    omega
  refine ⟨.inr (by simp [scientific]), ?_⟩
  simp only [number, scientific, List.take_append_drop, Option.getD_some, hexponent]

end

/-- The digits of a double are none, or they do not begin with a zero. -/
theorem ofFloat_cases (x : Binary64) :
    let d := Decimal.shortest .toEven x
    d.digits = 0 ∧ ofFloat x = ⟨x.isNegative, ['0'], ['0'], none⟩ ∨
    d.digits ≠ 0 ∧ ∃ c cs, Nat.toDigits 10 d.digits = c :: cs ∧ c ≠ '0' ∧
      let point : ℤ := (c :: cs).length + d.exponent
      ofFloat x = if -5 < point ∧ point ≤ 16 then positional x.isNegative (c :: cs) point
        else scientific x.isNegative (c :: cs) (point - 1) := by
  intro d
  rcases Nat.eq_zero_or_pos d.digits with hzero | hpos
  · exact .inl ⟨hzero, if_pos hzero⟩
  · obtain ⟨c, cs, hcs, hc⟩ := toDigits_eq_cons hpos
    refine .inr ⟨hpos.ne', c, cs, hcs, hc, ?_⟩
    rw [← hcs]
    exact if_neg hpos.ne'

theorem valid_ofFloat (x : Binary64) : (ofFloat x).Valid := by
  rcases ofFloat_cases x with ⟨-, heq⟩ | ⟨-, c, cs, hcs, hc, heq⟩
  · have hzero : ∀ b ∈ ['0'], b.isDigit = true := isDigit_of_zeros (k := 1)
    rw [heq]
    exact ⟨rfl, hzero, hzero⟩
  · have hdigits : ∀ b ∈ c :: cs, b.isDigit = true := by
      rw [← hcs]
      exact isDigit_of_toDigits
    rw [heq]
    split
    · exact valid_positional hc hdigits
    · exact valid_scientific hc hdigits

theorem text_ofFloat (x : Binary64) :
    (Decimal.render numberLayout x).toList = (ofFloat x).text := by
  have hsign : (if x.isNegative then "-" else "").toList = if x.isNegative then ['-'] else [] := by
    split <;> rfl
  rcases ofFloat_cases x with ⟨hzero, heq⟩ | ⟨hne, c, cs, hcs, -, heq⟩
  · have hrender : Decimal.render numberLayout x =
        (if x.isNegative then "-" else "") ++ "0" ++ numberLayout.wholeSuffix := if_pos hzero
    rw [heq, hrender, String.toList_append, String.toList_append, hsign]
    simp [text, signText, fractionText, numberLayout]
  · set point : ℤ := (c :: cs).length + (Decimal.shortest .toEven x).exponent
    have hrender : Decimal.render numberLayout x = if -5 < point ∧ point ≤ 16 then
        (if x.isNegative then "-" else "") ++ Decimal.positionalText numberLayout (c :: cs) point
        else (if x.isNegative then "-" else "") ++
          Decimal.scientificText numberLayout (c :: cs) (point - 1) := by
      refine (if_neg hne).trans ?_
      have hcs : Nat.toDigits 10 (Decimal.shortest numberLayout.tie x).digits = c :: cs := hcs
      rw [hcs]
      exact if_congr decide_eq_true_iff rfl rfl
    rw [heq, hrender]
    split
    · rw [text_positional, String.toList_append, hsign]
    · rw [text_scientific, String.toList_append, hsign]

theorem reads_ofFloat {x : Binary64} (h : x.isFinite = true) : (ofFloat x).Reads x := by
  have hback := Decimal.readsBack_iff.mp (Decimal.readsBack_shortest .toEven h)
  rcases ofFloat_cases x with ⟨hzero, heq⟩ | ⟨-, c, cs, hcs, -, heq⟩
  · rw [heq]
    rw [hzero, Binary64.ofDecimal, if_pos rfl] at hback
    refine ⟨.inl (by simp), ?_⟩
    have hnone : digitsValue (['0'] ++ ['0']) = 0 := rfl
    rw [number, Binary64.ofDecimal, if_pos hnone]
    exact hback
  · have hdigits : digitsValue (c :: cs) = (Decimal.shortest .toEven x).digits := by
      rw [← hcs, digitsValue_toDigits]
    rw [← hdigits] at hback
    rw [heq]
    split
    · have hreads := reads_positional x.isNegative c cs
        ((c :: cs).length + (Decimal.shortest .toEven x).exponent)
      rwa [add_sub_cancel_left, hback] at hreads
    · have hreads := reads_scientific x.isNegative c cs
        ((c :: cs).length + (Decimal.shortest .toEven x).exponent - 1)
      rwa [sub_add_cancel, add_sub_cancel_left, hback] at hreads

theorem integer?_ofFloat {x : Binary64} (h : x.isFinite = true) :
    (ofFloat x).number.integer? = none := by
  have hwhole : (ofFloat x).number.isWhole = false :=
    decide_eq_false (not_and_or.mpr (reads_ofFloat h).1)
  simp [NumberText.integer?, hwhole]

theorem nearest?_ofFloat {x : Binary64} (h : x.isFinite = true) :
    (ofFloat x).number.nearest? = some x := by
  simp [NumberText.nearest?, (reads_ofFloat h).2, h]

end Pieces

end Json

end CrowdScenario

import CrowdScenario.Text.Blank
import CrowdScenario.Text.Digits
import Mathlib

/-!
# Runs of digits

A run of digits is found again in front of whatever is no digit. Its number is that of its first
digits, moved up by as many places as there are others, and theirs.
-/

namespace CrowdScenario.Text

variable {α : Type} {p : α → Bool} {run rest : List α}

/-- Whether a run of characters with a property ends before a text. -/
def StopsBefore (p : α → Bool) (rest : List α) : Prop := ∀ a ∈ rest.head?, p a = false

theorem stopsBefore_nil (p : α → Bool) : StopsBefore p [] := nofun

theorem stopsBefore_cons {a : α} (h : p a = false) : StopsBefore p (a :: rest) := by
  intro b hb
  cases hb
  exact h

theorem StopsBefore.takeWhile_eq_nil (h : StopsBefore p rest) : rest.takeWhile p = [] := by
  cases rest with
  | nil => rfl
  | cons a rest => simp [h a rfl]

theorem StopsBefore.dropWhile_eq_self (h : StopsBefore p rest) : rest.dropWhile p = rest := by
  cases rest with
  | nil => rfl
  | cons a rest => simp [h a rfl]

theorem takeWhile_run (hrun : ∀ a ∈ run, p a = true) (hrest : StopsBefore p rest) :
    (run ++ rest).takeWhile p = run := by
  rw [List.takeWhile_append_of_pos hrun, hrest.takeWhile_eq_nil, List.append_nil]

theorem dropWhile_run (hrun : ∀ a ∈ run, p a = true) (hrest : StopsBefore p rest) :
    (run ++ rest).dropWhile p = rest := by
  rw [List.dropWhile_append_of_pos hrun, hrest.dropWhile_eq_self]

theorem stopsBefore_dropWhile (p : α → Bool) (as : List α) : StopsBefore p (as.dropWhile p) := by
  intro a ha
  have hstop := List.head?_dropWhile_not p as
  rw [ha] at hstop
  exact hstop

theorem isDigit_iff {c : Char} : c.isDigit = true ↔ 48 ≤ c.toNat ∧ c.toNat ≤ 57 := by
  rw [Char.isDigit, Bool.and_eq_true, decide_eq_true_eq, decide_eq_true_eq]
  exact Iff.rfl

theorem not_isBlank_of_isDigit {c : Char} (h : c.isDigit = true) : isBlank c = false := by
  have hc := isDigit_iff.mp h
  rw [Bool.eq_false_iff, isBlank, ne_eq, List.any_eq_true]
  rintro ⟨range, hrange, hin⟩
  simp only [blankRanges, List.mem_cons, List.not_mem_nil, or_false] at hrange
  rcases hrange with rfl | rfl | rfl | rfl | rfl | rfl | rfl | rfl | rfl | rfl <;>
    simp at hin <;> omega

theorem digitsValue_append (cs ds : List Char) :
    digitsValue (cs ++ ds) = 10 ^ ds.length * digitsValue cs + digitsValue ds := by
  have happend : Nat.ofDigitChars 10 (cs ++ ds) 0 =
      10 ^ ds.length * Nat.ofDigitChars 10 cs 0 + Nat.ofDigitChars 10 ds 0 := by
    rw [Nat.ofDigitChars_append, Nat.ofDigitChars_eq_ofDigitChars_zero]
  exact happend

theorem digitsValue_concat (cs : List Char) (c : Char) :
    digitsValue (cs ++ [c]) = 10 * digitsValue cs + digitValue c := by
  rw [digitsValue, List.foldl_append]
  rfl

end CrowdScenario.Text

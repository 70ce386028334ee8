/-!
# Parts of a text

A text is cut at every occurrence of a mark. There is one part more than there are marks, and the
parts with the marks between them are the text again.
-/

namespace CrowdScenario.Text

def parts (mark : Char) : List Char → List (List Char)
  | [] => [[]]
  | c :: cs =>
    if c = mark then [] :: parts mark cs
    else
      match parts mark cs with
      | [] => [[c]]
      | part :: rest => (c :: part) :: rest

def joinParts (mark : Char) : List (List Char) → List Char
  | [] => []
  | [part] => part
  | part :: next :: rest => part ++ mark :: joinParts mark (next :: rest)

theorem parts_ne_nil (mark : Char) (cs : List Char) : parts mark cs ≠ [] := by
  cases cs with
  | nil => simp [parts]
  | cons c cs =>
    simp only [parts]
    split
    · simp
    · split <;> simp

theorem joinParts_cons_cons (mark c : Char) (part : List Char) (rest : List (List Char)) :
    joinParts mark ((c :: part) :: rest) = c :: joinParts mark (part :: rest) := by
  cases rest <;> rfl

theorem joinParts_parts (mark : Char) (cs : List Char) : joinParts mark (parts mark cs) = cs := by
  induction cs with
  | nil => rfl
  | cons c cs ih =>
    simp only [parts]
    split
    · next hc =>
      cases hp : parts mark cs with
      | nil => exact absurd hp (parts_ne_nil mark cs)
      | cons part rest =>
        rw [hp] at ih
        rw [joinParts, ih, hc]
        rfl
    · split
      · next hp => exact absurd hp (parts_ne_nil mark cs)
      · next part rest hp =>
        rw [hp] at ih
        rw [joinParts_cons_cons, ih]

theorem parts_of_not_mem {mark : Char} {cs : List Char} (h : mark ∉ cs) : parts mark cs = [cs] := by
  induction cs with
  | nil => rfl
  | cons c cs ih =>
    have hc : c ≠ mark := fun heq => h (heq ▸ List.mem_cons_self ..)
    have hcs : mark ∉ cs := fun hm => h (List.mem_cons_of_mem _ hm)
    rw [parts, if_neg hc, ih hcs]

theorem parts_append {mark : Char} {part : List Char} (h : mark ∉ part) (cs : List Char) :
    parts mark (part ++ mark :: cs) = part :: parts mark cs := by
  induction part with
  | nil => simp [parts]
  | cons c part ih =>
    have hc : c ≠ mark := fun heq => h (heq ▸ List.mem_cons_self ..)
    have hpart : mark ∉ part := fun hm => h (List.mem_cons_of_mem _ hm)
    rw [List.cons_append, parts, if_neg hc, ih hpart]

end CrowdScenario.Text

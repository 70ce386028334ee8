import CrowdScenario.Proofs.Wire.Canonical

/-!
# Documents without the records of a section

The bytes of a document can be rid of the records of one section. Where those stand in one run, what
is left are the bytes before the run and the bytes behind it.
-/

namespace CrowdScenario
namespace Document

def dropRecords (s : Section) (bs : Bytes) : Bytes :=
  match _h : recordLength? bs with
  | none => bs
  | some n =>
    (if bs.head? = some s.code then [] else bs.take n) ++ dropRecords s (bs.drop n)
termination_by bs.length
decreasing_by exact recordLength?_drop_lt _h

def without (s : Section) : Bytes → Bytes
  | [] => []
  | code :: rest => code :: dropRecords s rest

/-- Written records whose sections are all wanted. -/
def Run (wanted : Section → Prop) (bs : Bytes) (count : Nat) : Prop :=
  ∃ rs chunks, List.Forall₂ Record.Written rs chunks ∧ bs = chunks.flatten ∧ count = rs.length ∧
    ∀ r ∈ rs, wanted r.coordinate.owner

theorem code_injective {s s' : Section} (h : s.code = s'.code) : s = s' := by
  have hsame := congrArg Section.ofCode? h
  rw [Section.ofCode?_code, Section.ofCode?_code] at hsame
  exact Option.some.inj hsame

theorem head?_of_form {r : Record} {bs : Bytes} (h : r.Form bs) (rest : Bytes) :
    (bs ++ rest).head? = some r.coordinate.owner.code := by
  obtain ⟨payload, -, rfl⟩ := h
  rfl

theorem Run.imp {wanted wanted' : Section → Prop} {bs : Bytes} {count : Nat}
    (h : Run wanted bs count) (hwanted : ∀ s, wanted s → wanted' s) : Run wanted' bs count := by
  obtain ⟨rs, chunks, hwritten, hbytes, hcount, howner⟩ := h
  exact ⟨rs, chunks, hwritten, hbytes, hcount, fun r hr => hwanted _ (howner r hr)⟩

section
variable {s : Section}

theorem dropRecords_nil : dropRecords s [] = [] := by
  rw [dropRecords]
  split
  · rfl
  · next h => cases h

theorem dropRecords_append {r : Record} {bs : Bytes} (h : r.Form bs) (rest : Bytes) :
    dropRecords s (bs ++ rest) =
      (if r.coordinate.owner = s then [] else bs) ++ dropRecords s rest := by
  have hlen := recordLength?_of_form h rest
  have hhead : (bs ++ rest).head? = some s.code ↔ r.coordinate.owner = s := by
    rw [head?_of_form h, Option.some.injEq]
    exact ⟨code_injective, congrArg Section.code⟩
  rw [dropRecords]
  split
  · next hnone =>
    rw [hlen] at hnone
    cases hnone
  · next n hsome =>
    rw [hlen] at hsome
    cases hsome
    rw [List.take_left, List.drop_left]
    simp only [hhead]

theorem Run.dropRecords_of_eq {run : Bytes} {count : Nat} (h : Run (· = s) run count)
    (rest : Bytes) : dropRecords s (run ++ rest) = dropRecords s rest := by
  obtain ⟨rs, chunks, hwritten, rfl, -, howner⟩ := h
  induction hwritten with
  | nil => rfl
  | cons hr _ ih =>
    obtain ⟨hfirst, hothers⟩ := List.forall_mem_cons.mp howner
    rw [List.flatten_cons, List.append_assoc, dropRecords_append hr.form, if_pos hfirst, ih hothers]
    rfl

theorem Run.dropRecords_of_ne {run : Bytes} {count : Nat} (h : Run (· ≠ s) run count)
    (rest : Bytes) : dropRecords s (run ++ rest) = run ++ dropRecords s rest := by
  obtain ⟨rs, chunks, hwritten, rfl, -, howner⟩ := h
  induction hwritten with
  | nil => rfl
  | cons hr _ ih =>
    obtain ⟨hfirst, hothers⟩ := List.forall_mem_cons.mp howner
    rw [List.flatten_cons, List.append_assoc, dropRecords_append hr.form, if_neg hfirst, ih hothers,
      List.append_assoc]

/-- Without its run of a section a document is what stands before the run and behind it. -/
theorem without_run {code : Byte} {before run behind : Bytes} {m n k : Nat}
    (hbefore : Run (· ≠ s) before m) (hrun : Run (· = s) run n) (hbehind : Run (· ≠ s) behind k) :
    without s (code :: (before ++ run ++ behind)) = code :: (before ++ behind) := by
  have hlast : dropRecords s behind = behind := by
    have hdrop := hbehind.dropRecords_of_ne []
    rwa [dropRecords_nil, List.append_nil] at hdrop
  rw [without, List.append_assoc, hbefore.dropRecords_of_ne, hrun.dropRecords_of_eq, hlast]

end

end Document
end CrowdScenario

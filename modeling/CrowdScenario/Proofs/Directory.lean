import CrowdScenario.Directory
import Mathlib

/-!
# Files that were written

Whether a file can be written depends on its path alone, and a file that was written is read again
under this path: the directories on the way stay directories (`read_of_write`).
-/

namespace CrowdScenario.Directory

variable {d : Directory} {names others : List String} {content : Bytes}

/-- The directory with a file under a list of names. -/
def put (d : Directory) (names : List String) (content : Bytes) : Directory :=
  ⟨(names, content) :: d.files.filter (·.1 ≠ names)⟩

theorem place_eq_directory : d.place names = .directory ↔
    d.files.lookup names = none ∧ (names = [] ∨ ∃ f ∈ d.files, names <+: f.1) := by
  unfold place
  cases d.files.lookup names with
  | some content => simp
  | none =>
    by_cases hbelow : names = [] ∨ d.files.any fun f => names.isPrefixOf f.1
    · rw [if_pos hbelow]
      simpa using hbelow
    · rw [if_neg hbelow]
      simpa using hbelow

theorem place_put_self : (d.put names content).place names = .file content := by
  have hfirst : (d.put names content).files.lookup names = some content := by
    simp [put]
  simp only [place, hfirst]

theorem lookup_put_of_ne (h : others ≠ names) :
    (d.put names content).files.lookup others = d.files.lookup others := by
  have hhead : (others == names) = false := by simpa using h
  simp only [put, List.lookup, hhead]
  induction d.files with
  | nil => rfl
  | cons f files ih =>
    rw [List.filter_cons]
    by_cases hf : f.1 = names
    · have hskip : (others == f.1) = false := by simpa [hf] using h
      simp only [List.lookup, hskip]
      rw [if_neg (by simp [hf])]
      exact ih
    · rw [if_pos (by simp [hf])]
      simp only [List.lookup, ih]

/-- What was a directory stays one, unless the file takes its place. -/
theorem place_put_directory (h : d.place others = .directory) (hne : others ≠ names) :
    (d.put names content).place others = .directory := by
  obtain ⟨hnone, hdirectory⟩ := place_eq_directory.mp h
  refine place_eq_directory.mpr ⟨?_, ?_⟩
  · rw [lookup_put_of_ne hne]
    exact hnone
  · obtain hroot | ⟨f, hf, hbelow⟩ := hdirectory
    · exact .inl hroot
    · right
      by_cases hsame : f.1 = names
      · rw [hsame] at hbelow
        exact ⟨(names, content), List.mem_cons_self, hbelow⟩
      · have hkept : f ∈ d.files.filter (·.1 ≠ names) := by
          simp [hf, hsame]
        exact ⟨f, List.mem_cons_of_mem _ hkept, hbelow⟩

theorem follow_put (hfree : d.place names ≠ .directory) {here there : Whereabouts}
    {path : List String} (h : d.follow here path = .ok there) :
    (d.put names content).follow here path = .ok there := by
  -- The induction is on the names of the path, each of which leads to a directory.
  induction path generalizing here with
  | nil => exact h
  | cons name rest ih =>
    rw [follow] at h ⊢
    by_cases hstep : isStep name
    · rw [if_pos hstep] at h ⊢
      exact ih h
    rw [if_neg hstep] at h ⊢
    by_cases hlong : name.utf8ByteSize > longestName
    · rw [if_pos hlong] at h
      cases h
    rw [if_neg hlong] at h ⊢
    cases hplace : d.placeIn here name with
    | file content => simp [hplace] at h
    | nothing => simp [hplace] at h
    | directory =>
      have hkept : (d.put names content).placeIn here name = .directory := by
        cases here with
        | none => cases hplace
        | some before =>
          apply place_put_directory hplace
          intro hsame
          rw [← hsame] at hfree
          exact hfree hplace
      simp only [hplace] at h
      simp only [hkept]
      exact ih h

theorem locate_put (hfree : d.place names ≠ .directory) {path : String} {there : Destination}
    (h : d.locate path = .ok there) : (d.put names content).locate path = .ok there := by
  unfold locate at h ⊢
  split at h
  · cases h
  split at h
  · cases h
  split at h
  · cases h
  · next hempty hnul hlong =>
    rw [if_neg hempty, if_neg hnul, if_neg hlong]
    simp only [Except.map] at h ⊢
    split at h
    · cases h
    · next here hfollow =>
      rw [follow_put hfree hfollow]
      exact h

theorem write_eq_ok {path : String} {d' : Directory} : d.write path content = .ok d' ↔
    ∃ here name, d.locate path = .ok ⟨some here, name, false⟩ ∧ isStep name = false ∧
      name.utf8ByteSize ≤ longestName ∧ d.place (here ++ [name]) ≠ .directory ∧
      d' = d.put (here ++ [name]) content := by
  unfold write
  constructor
  · intro h
    split at h
    · cases h
    next place hlocate =>
    obtain ⟨here, name, isClosed⟩ := place
    split at h
    · cases h
    next hfile =>
    rw [not_or] at hfile
    obtain ⟨hname, hclosed⟩ := hfile
    cases eq_false_of_ne_true hclosed
    split at h
    · cases h
    next hshort =>
    cases here with
    | none => cases h
    | some here =>
      dsimp only at h
      split at h
      · cases h
      next hfree =>
      cases h
      exact ⟨here, name, hlocate, eq_false_of_ne_true hname, Nat.not_lt.mp hshort, hfree, rfl⟩
  · rintro ⟨here, name, hlocate, hname, hshort, hfree, rfl⟩
    have hfile : ¬ (isStep name = true ∨ false = true) := by simp [hname]
    rw [hlocate]
    dsimp only
    rw [if_neg hfile, if_neg (Nat.not_lt.mpr hshort)]
    split
    · next hdirectory => exact absurd hdirectory hfree
    · rfl

theorem read_of_write {path : String} {d' : Directory} (h : d.write path content = .ok d') :
    d'.read path = .ok content := by
  obtain ⟨here, name, hlocate, hname, hshort, hfree, rfl⟩ := write_eq_ok.mp h
  have hplace : (d.put (here ++ [name]) content).placeIn (some here) name = .file content :=
    place_put_self
  unfold read
  rw [locate_put hfree hlocate]
  simp [hname, Nat.not_lt.mpr hshort, hplace]

theorem write_of_write {path : String} {d' : Directory} (h : d.write path content = .ok d')
    (other : Bytes) : ∃ d'', d.write path other = .ok d'' := by
  obtain ⟨here, name, hlocate, hname, hshort, hfree, -⟩ := write_eq_ok.mp h
  exact ⟨_, write_eq_ok.mpr ⟨here, name, hlocate, hname, hshort, hfree, rfl⟩⟩

end CrowdScenario.Directory

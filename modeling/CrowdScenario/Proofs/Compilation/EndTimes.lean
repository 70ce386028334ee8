import CrowdScenario.Proofs.Binary64.Rounding
import CrowdScenario.Proofs.Compilation.Arity
import CrowdScenario.Proofs.Compilation.Parts

/-!
# End times

The end time of a document is the exact value of a double, rounded to the nearest whole number with
halves away from zero, or no end for positive infinity. The number that stands for no end is refused
like all others that are no seconds, so that no end time is read back as another
(`compile_end_time`).
-/

namespace CrowdScenario

open Resolution Encoding

def Record.endTime? : Record → Option EndTime
  | endTime t => some t
  | _ => none

def Document.endTimes (d : Document) : List EndTime := d.records.filterMap Record.endTime?

theorem endTime?_eq_some {x : Binary64} {t : EndTime} :
    Encoding.endTime? x = some t ↔ EndsAt x t := by
  refine ⟨endsAt_of_endTime?, ?_⟩
  rintro (⟨rfl, rfl⟩ | ⟨n, rfl, hfinite, hround, hlt⟩)
  · rfl
  · have hne : x ≠ .infinity false := by
      rintro rfl
      cases hfinite
    have hn : UInt32.ofNat x.roundHalfAway.toNat = n := by
      rw [← hround, Int.toNat_natCast, UInt32.ofNat_toNat]
    rw [Encoding.endTime?, if_neg hne, if_pos ⟨hfinite, by omega, by omega⟩, hn]

theorem endsAt_iff_eq {x : Binary64} {t t' : EndTime} (h : EndsAt x t) : t = t' ↔ EndsAt x t' := by
  constructor
  · rintro rfl
    exact h
  · intro h'
    have hsome := endTime?_eq_some.mpr h
    rw [endTime?_eq_some.mpr h'] at hsome
    exact (Option.some.inj hsome).symm

/-- The seconds of a finite end time are its exact value, rounded. -/
theorem endsAt_finite {x : Binary64} {n : UInt32} :
    EndsAt x (.finite n) ↔
      x.isFinite = true ∧ Rounds x.toRat n.toNat ∧ n.toNat ≤ 4294967294 := by
  have hsentinel : EndTime.sentinel.toNat = 4294967295 := rfl
  constructor
  · rintro (⟨-, hne⟩ | ⟨n', heq, hfinite, hround, hlt⟩)
    · cases hne
    · cases heq
      refine ⟨hfinite, ?_, by omega⟩
      rw [hround]
      exact x.rounds_roundHalfAway
  · rintro ⟨hfinite, hround, hle⟩
    exact .inr ⟨n, rfl, hfinite, hround.unique x.rounds_roundHalfAway, by omega⟩

theorem endsAt_infinite {x : Binary64} : EndsAt x .infinite ↔ x = .infinity false := by
  constructor
  · rintro (⟨hx, -⟩ | ⟨n, hne, -⟩)
    · exact hx
    · cases hne
  · exact fun hx => .inl ⟨hx, rfl⟩

namespace Layout

def endTimeField : Field := ⟨"end_time", .float, none, .seconds Coordinate.endTime.element⟩

def endTimeStep : Step := .field ["time"] .time endTimeField

section
variable {ctx : Context} {root : Node} {members : Json.Members} {x : Binary64}

theorem alone_endTime (hx : Resolves ctx root ["time"] .time "end_time" (.float x))
    {e : CompileError} (h : endTimeStep.alone ctx root = .error e) :
    endTime? x = none ∧
      e = .valueOutOfRange "time.end_time" (Decimal.display x) secondsDetail := by
  have hresolve : perform (resolve ctx root ["time"] .time endTimeField.name) .empty =
      (.ok (.float x), _) := Prod.ext hx rfl
  have hleading : endTimeField.emission ≠ .leadingByte := nofun
  rw [endTimeStep, alone_of_resolves hresolve, perform_writeValue_of_owner hleading rfl] at h
  simp only [endTimeField, entries, require, Value.float?, pure_bind] at h
  cases hend : endTime? x with
  | some t =>
    rw [hend] at h
    cases h
  | none =>
    rw [hend] at h
    cases h
    exact ⟨rfl, rfl⟩

theorem endTimes_of_other {f : Field} (hf : f ∈ Schema.root.fields)
    (hnested : f.kind.isNested = true) (hother : f.name ≠ "time") {supplied? : Option Json}
    {rs : List Record} (h : IfSupplied supplied? (groupKind ctx root members f) rs) :
    rs.filterMap Record.endTime? = [] := by
  have howner : ∀ r ∈ rs, f.name = r.coordinate.owner.name := by
    cases supplied? with
    | none =>
      cases h
      exact nofun
    | some j => exact owner_of_group hf hnested h
  refine List.filterMap_eq_nil_iff.mpr fun r hr => ?_
  cases r with
  | endTime t => exact absurd (howner _ hr) hother
  | _ => rfl

theorem Records.endTimes {doc : Document} (h : Records ctx root members doc.records) {j : Json}
    (hsupplied : Json.supplied? members "time" = some j) :
    ∃ x t, Resolves ctx root ["time"] .time "end_time" (.float x) ∧ EndsAt x t ∧
      doc.endTimes = [t] := by
  obtain ⟨scene, time, spawn, forces, fov, density, hscene, htime, hspawn, hforces, hfov, hdensity,
    hall⟩ := h
  rw [hsupplied, ifSupplied_some] at htime
  obtain ⟨x, t, tick, hx, hends, -, rfl⟩ := htime
  have hother : ∀ f ∈ Schema.root.fields, f.kind.isNested = true → f.name ≠ "time" →
      ∀ supplied? rs, IfSupplied supplied? (groupKind ctx root members f) rs →
        rs.filterMap Record.endTime? = [] :=
    fun f hf hnested hne _ _ => endTimes_of_other hf hnested hne
  refine ⟨x, t, hx, hends, ?_⟩
  simp only [Document.endTimes, hall, List.filterMap_append,
    hother (.nested "scene" "scene") (by decide) rfl (by decide) _ _ hscene,
    hother (.nested "spawn" "spawn") (by decide) rfl (by decide) _ _ hspawn,
    hother (.nested "forces" "forces") (by decide) rfl (by decide) _ _ hforces,
    hother (.nested "fov" "fov") (by decide) rfl (by decide) _ _ hfov,
    hother (.nested "density_map" "density_map") (by decide) rfl (by decide) _ _ hdensity]
  rfl

end

end Layout

open Layout

section
variable {settings : Settings} {ingest : Ingestor} {d : Description} {root : Node} {x : Binary64}

theorem endTimes_of_compile {c : Compiled}
    (hroot : Node.ofDescription .standard d.members = .ok root)
    (hx : Resolves ⟨settings, d.directory?, ingest⟩ root ["time"] .time "end_time" (.float x))
    (h : compile settings .standard ingest d = .ok c) :
    ∃ doc t, Document.decode c.bytes = .ok doc ∧ EndsAt x t ∧ doc.endTimes = [t] := by
  obtain ⟨root', doc, hroot', hdecode, -, -, hrecords⟩ := document_of_compile h
  cases hroot.symm.trans hroot'
  obtain ⟨n, f, hfield⟩ := field_of_resolves hx
  have hat : root.at? ([] ++ ["time"]) = some n := (Node.field?_eq_some.mp hfield).1
  obtain ⟨j, hj⟩ := Node.suppliedAt?_of_at? hroot hat
  obtain ⟨x', t, hx', hends, htimes⟩ := hrecords.endTimes hj
  cases hx.symm.trans hx'
  exact ⟨doc, t, hdecode, hends, htimes⟩

/-- Where all steps but the writing of the end time succeed, a compilation does if and only if the
end time is one. -/
theorem compile_of_endTime (hroot : Node.ofDescription .standard d.members = .ok root)
    (hx : Resolves ⟨settings, d.directory?, ingest⟩ root ["time"] .time "end_time" (.float x))
    (hrest : ∀ s ∈ steps [] root, s ≠ endTimeStep →
      ∃ w, s.alone ⟨settings, d.directory?, ingest⟩ root = .ok w) :
    (∃ c, compile settings .standard ingest d = .ok c) ∨
      endTime? x = none ∧ compile settings .standard ingest d =
        .error (.valueOutOfRange "time.end_time" (Decimal.display x) secondsDetail) := by
  cases hcompile : compile settings .standard ingest d with
  | ok c => exact .inl ⟨c, rfl⟩
  | error e =>
    obtain ⟨before, s, behind, hsteps, -, hs⟩ := (compile_eq_error_iff hroot).mp hcompile
    by_cases hstep : s = endTimeStep
    · rw [hstep] at hs
      obtain ⟨hnone, rfl⟩ := alone_endTime hx hs
      exact .inr ⟨hnone, rfl⟩
    · have hmem : s ∈ steps [] root := by
        rw [hsteps]
        exact List.mem_append_cons_self
      obtain ⟨w, hw⟩ := hrest s hmem hstep
      rw [hs] at hw
      cases hw

theorem document_of_endsAt (hroot : Node.ofDescription .standard d.members = .ok root)
    (hx : Resolves ⟨settings, d.directory?, ingest⟩ root ["time"] .time "end_time" (.float x))
    (hrest : ∀ s ∈ steps [] root, s ≠ endTimeStep →
      ∃ w, s.alone ⟨settings, d.directory?, ingest⟩ root = .ok w)
    {t : EndTime} (ht : EndsAt x t) :
    ∃ c doc, compile settings .standard ingest d = .ok c ∧
      Document.decode c.bytes = .ok doc ∧ doc.endTimes = [t] := by
  rcases compile_of_endTime hroot hx hrest with ⟨c, hc⟩ | ⟨hnone, -⟩
  · obtain ⟨doc, t', hdecode, ht', htimes⟩ := endTimes_of_compile hroot hx hc
    rw [(endsAt_iff_eq ht').mpr ht] at htimes
    exact ⟨c, doc, hc, hdecode, htimes⟩
  · rw [endTime?_eq_some.mpr ht] at hnone
    cases hnone

/-- A document has just the end time that its description has. Infinity is no end, and any other end
is the number of seconds that the exact value is rounded to. Where everything else can be written,
there is a document for these, and all other values are refused. -/
theorem compile_end_time (hroot : Node.ofDescription .standard d.members = .ok root)
    (hx : Resolves ⟨settings, d.directory?, ingest⟩ root ["time"] .time "end_time" (.float x)) :
    (∀ c, compile settings .standard ingest d = .ok c →
      ∃ doc t, Document.decode c.bytes = .ok doc ∧ doc.endTimes = [t] ∧
        (t = .infinite ↔ x = .infinity false) ∧
        ∀ n, t = .finite n ↔
          x.isFinite = true ∧ Rounds x.toRat n.toNat ∧ n.toNat ≤ 4294967294) ∧
    ((∀ s ∈ steps [] root, s ≠ endTimeStep →
        ∃ w, s.alone ⟨settings, d.directory?, ingest⟩ root = .ok w) →
      (x = .infinity false → ∃ c doc, compile settings .standard ingest d = .ok c ∧
        Document.decode c.bytes = .ok doc ∧ doc.endTimes = [.infinite]) ∧
      (∀ r : ℤ, x.isFinite = true → Rounds x.toRat r → 0 ≤ r → r ≤ 4294967294 →
        ∃ c doc n, compile settings .standard ingest d = .ok c ∧
          Document.decode c.bytes = .ok doc ∧ doc.endTimes = [.finite n] ∧ (n.toNat : ℤ) = r) ∧
      (x ≠ .infinity false →
        (∀ r : ℤ, x.isFinite = true → Rounds x.toRat r → ¬ (0 ≤ r ∧ r ≤ 4294967294)) →
          compile settings .standard ingest d =
            .error (.valueOutOfRange "time.end_time" (Decimal.display x) secondsDetail))) := by
  constructor
  · intro c hc
    obtain ⟨doc, t, hdecode, ht, htimes⟩ := endTimes_of_compile hroot hx hc
    exact ⟨doc, t, hdecode, htimes, (endsAt_iff_eq ht).trans endsAt_infinite,
      fun n => (endsAt_iff_eq ht).trans endsAt_finite⟩
  · intro hrest
    refine ⟨fun hinfinite =>
      document_of_endsAt hroot hx hrest (endsAt_infinite.mpr hinfinite), ?_, ?_⟩
    · intro r hfinite hrounds hlow hhigh
      have hn : ((UInt32.ofNat r.toNat).toNat : ℤ) = r := by
        have hlt : r.toNat < 4294967296 := by omega
        rw [UInt32.toNat_ofNat_of_lt' hlt]
        omega
      have hends : EndsAt x (.finite (UInt32.ofNat r.toNat)) :=
        endsAt_finite.mpr ⟨hfinite, by rwa [hn], by omega⟩
      obtain ⟨c, doc, hc, hdecode, htimes⟩ := document_of_endsAt hroot hx hrest hends
      exact ⟨c, doc, _, hc, hdecode, htimes, hn⟩
    · intro hinfinite hother
      rcases compile_of_endTime hroot hx hrest with ⟨c, hc⟩ | ⟨-, hrefused⟩
      · obtain ⟨doc, t, -, ht, -⟩ := endTimes_of_compile hroot hx hc
        cases t with
        | infinite => exact absurd (endsAt_infinite.mp ht) hinfinite
        | finite n =>
          obtain ⟨hfinite, hrounds, hle⟩ := endsAt_finite.mp ht
          exact absurd ⟨by omega, by omega⟩ (hother n.toNat hfinite hrounds)
      · exact hrefused

end

namespace Halfway

def time : Json.Members := [("end_time", .float ⟨0x4033800000000000⟩)]

def members : Json.Members := [("time", .object time)]

def tree : Node := ⟨.root, none, members, [("time", ⟨.time, none, time, []⟩)]⟩

end Halfway

open Halfway in
theorem compile_end_time_halfway :
    Node.ofDescription .standard members = .ok tree ∧
      Resolves ⟨.standard, none, fun _ => .ok []⟩ tree ["time"] .time "end_time"
        (.float ⟨0x4033800000000000⟩) ∧
      ∃ c doc, compile .standard .standard (fun _ => .ok []) ⟨members, none⟩ = .ok c ∧
        Document.decode c.bytes = .ok doc ∧ doc.endTimes = [.finite 20] := by
  have hroot : Node.ofDescription .standard members = .ok tree := by cbv
  have hx : Resolves ⟨.standard, none, fun _ => .ok []⟩ tree ["time"] .time "end_time"
      (.float ⟨0x4033800000000000⟩) := by
    unfold Resolves
    cbv
  obtain ⟨-, hwritten⟩ := compile_end_time (d := ⟨members, none⟩) hroot hx
  have hrest : ∀ s ∈ steps [] tree, s ≠ endTimeStep →
      ∃ w, s.alone ⟨.standard, none, fun _ => .ok []⟩ tree = .ok w := by
    have hsteps : steps [] tree = [.field [] .root typeField, endTimeStep,
        .field ["time"] .time (.float "tick" Coordinate.tick.element)] := rfl
    rw [hsteps]
    intro s hs hne
    simp only [List.mem_cons, List.not_mem_nil, or_false] at hs
    rcases hs with rfl | rfl | rfl
    · exact ⟨⟨[1], 0⟩, by cbv⟩
    · exact absurd rfl hne
    · exact ⟨⟨[2, 0, 2, 0, 0, 0, 0, 0, 0, 0, 0], 1⟩, by cbv⟩
  obtain ⟨-, hfinite, -⟩ := hwritten hrest
  have hround : (⟨0x4033800000000000⟩ : Binary64).roundHalfAway = 20 := by decide +kernel
  have hrounds := Binary64.rounds_roundHalfAway ⟨0x4033800000000000⟩
  rw [hround] at hrounds
  obtain ⟨c, doc, n, hc, hdecode, htimes, hn⟩ :=
    hfinite 20 (by decide) hrounds (by decide) (by decide)
  have htwenty : (20 : UInt32).toNat = 20 := rfl
  obtain rfl : n = 20 := UInt32.toNat_inj.mp (by omega)
  exact ⟨hroot, hx, c, doc, hc, hdecode, htimes⟩

end CrowdScenario

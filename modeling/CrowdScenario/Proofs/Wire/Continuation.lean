import CrowdScenario.Proofs.Wire.Forms

/-!
# Documents that go on

A record is read from the bytes ahead of it. Where it stands shows in failures only, and there as an
offset that moves with it (`Movable`). So a document with more bytes behind it is read as the document
and then as these bytes, which might as well follow its leading byte (`decode_append`).
-/

namespace CrowdScenario

/-- The same failure with `k` more bytes in front. -/
def DecodeError.further (k : Nat) : DecodeError → DecodeError
  | empty => empty
  | truncated offset needed => truncated (offset + k) needed
  | unknownSimulation code => unknownSimulation code
  | unknownSection code offset => unknownSection code (offset + k)
  | unknownElement c => unknownElement c
  | unknownDistribution code offset => unknownDistribution code (offset + k)
  | invalidText offset => invalidText (offset + k)

namespace Cursor

def further (k : Nat) (c : Cursor) : Cursor := ⟨c.rest, c.offset + k⟩

def moved {α : Type} (k : Nat) : Except DecodeError (α × Cursor) → Except DecodeError (α × Cursor)
  | .ok (a, next) => .ok (a, next.further k)
  | .error e => .error (e.further k)

/-- A step, which may know an offset, ends the same with more bytes in front. -/
def Movable {α : Type} (step : Nat → Read α) : Prop :=
  ∀ k offset c, step (offset + k) (c.further k) = moved k (step offset c)

theorem movable_take (n : Nat) : Movable fun _ => take n := by
  intro k _ c
  show take n ⟨c.rest, c.offset + k⟩ = _
  simp only [take]
  by_cases hshort : (c.rest.take n).length < n
  · rw [if_pos hshort, if_pos hshort]
    rfl
  · rw [if_neg hshort, if_neg hshort, Nat.add_right_comm]
    rfl

theorem movable_fail {α : Type} {e : Nat → DecodeError} (he : Blames e) :
    Movable fun offset => (fail (e offset) : Read α) := by
  intro k offset c
  cases he <;> rfl

theorem movable_andThen {α β : Type} {step : Nat → Read α} {following : Nat → α → Read β}
    (hs : Movable step) (hf : ∀ a, Movable fun offset => following offset a) :
    Movable fun offset => andThen (step offset) (following offset) := by
  intro k offset c
  have hstep := hs k offset c
  simp only [andThen, hstep]
  cases step offset c with
  | error e => rfl
  | ok p => exact hf p.1 k offset p.2

theorem Composed.movable {α : Type} {step : Nat → Read α} (h : Composed step) : Movable step := by
  induction h with
  | take n => exact movable_take n
  | pure a => exact fun _ _ _ => rfl
  | fail he => exact movable_fail he
  | andThen _ _ hs hf => exact movable_andThen hs hf
  | here _ hs => exact fun k _ c => hs k c.offset c

theorem readRecords_of_nil {c : Cursor} (h : c.rest = []) : readRecords c = .ok [] :=
  readRecords_eq_nil.mpr h

theorem readRecords_of_ok {c next : Cursor} {r : Record} (h : readRecord c = .ok (r, next)) :
    readRecords c = (readRecords next).map (r :: ·) := by
  cases hrest : readRecords next with
  | ok rs => exact readRecords_eq_cons.mpr ⟨next, h, hrest⟩
  | error e =>
    have hne : c.rest ≠ [] := by
      intro hnil
      have hlt := readRecord_shorter h
      rw [hnil] at hlt
      exact Nat.not_lt_zero _ hlt
    rw [readRecords, if_neg hne]
    split
    · next e' he =>
      rw [h] at he
      cases he
    · next r' next' hr =>
      rw [h] at hr
      cases hr
      rw [hrest]
      rfl

theorem readRecords_of_error {c : Cursor} {e : DecodeError} (hne : c.rest ≠ [])
    (h : readRecord c = .error e) : readRecords c = .error e := by
  rw [readRecords, if_neg hne]
  split
  · next e' he =>
    rw [h] at he
    cases he
    rfl
  · next r next hr =>
    rw [h] at hr
    cases hr

theorem readRecords_further (k : Nat) (c : Cursor) :
    readRecords (c.further k) = (readRecords c).mapError (·.further k) := by
  -- The induction is on the bytes ahead, which every record makes fewer.
  induction hn : c.rest.length using Nat.strongRecOn generalizing c with
  | _ size ih =>
    by_cases hnil : c.rest = []
    · rw [readRecords_of_nil hnil, readRecords_of_nil (show (c.further k).rest = [] from hnil)]
      rfl
    · have hmoved : (c.further k).rest ≠ [] := hnil
      have hmove : readRecord (c.further k) = moved k (readRecord c) :=
        composed_readRecord.movable k 0 c
      cases hr : readRecord c with
      | error e =>
        rw [hr] at hmove
        rw [readRecords_of_error hnil hr, readRecords_of_error hmoved hmove]
        rfl
      | ok p =>
        rcases p with ⟨r, next⟩
        rw [hr] at hmove
        have hlt := readRecord_shorter hr
        rw [hn] at hlt
        have hrest := ih _ hlt next rfl
        rw [readRecords_of_ok hr, readRecords_of_ok hmove, hrest]
        cases readRecords next with
        | error e => rfl
        | ok rs => rfl

theorem readRecord_append {c next : Cursor} {r : Record} (h : readRecord c = .ok (r, next))
    (x : Bytes) :
    readRecord ⟨c.rest ++ x, c.offset⟩ = .ok (r, ⟨next.rest ++ x, next.offset⟩) := by
  obtain ⟨bs, hform, hrest, hoffset⟩ := (exact_readRecord c r next).mp h
  apply (exact_readRecord _ r _).mpr
  refine ⟨bs, hform, ?_, hoffset⟩
  rw [hrest, List.append_assoc]

theorem readRecords_append {c : Cursor} {rs : List Record} (h : readRecords c = .ok rs)
    (x : Bytes) :
    readRecords ⟨c.rest ++ x, c.offset⟩ =
      (readRecords ⟨x, c.offset + c.rest.length⟩).map (rs ++ ·) := by
  induction rs generalizing c with
  | nil =>
    have hnil := readRecords_eq_nil.mp h
    rw [hnil, List.nil_append, List.length_nil, Nat.add_zero]
    cases readRecords ⟨x, c.offset⟩ with
    | error e => rfl
    | ok rs' => rfl
  | cons r rs ih =>
    obtain ⟨next, hr, hrs⟩ := readRecords_eq_cons.mp h
    obtain ⟨bs, -, hrest, hoffset⟩ := (exact_readRecord c r next).mp hr
    have hlength : c.offset + c.rest.length = next.offset + next.rest.length := by
      rw [hrest, hoffset, List.length_append]
      omega
    rw [readRecords_of_ok (readRecord_append hr x), ih hrs, hlength]
    cases readRecords ⟨x, next.offset + next.rest.length⟩ with
    | error e => rfl
    | ok rs' => rfl

end Cursor

namespace Document

theorem decode_code (s : Simulation) (x : Bytes) :
    decode (s.code :: x) = (Cursor.readRecords ⟨x, 1⟩).map (mk s) := by
  rw [decode, Simulation.ofCode?_code]

/-- A document goes on with what its leading byte alone would go on with: the records come behind its
own, and a failure is the same but for its offset, which grows by the bytes in between. -/
theorem decode_append {a : Bytes} {doc : Document} (h : decode a = .ok doc) (x : Bytes) :
    (∀ rs, decode (doc.simulation.code :: x) = .ok ⟨doc.simulation, rs⟩ →
      decode (a ++ x) = .ok ⟨doc.simulation, doc.records ++ rs⟩) ∧
    (∀ doc', decode (doc.simulation.code :: x) = .ok doc' → doc'.simulation = doc.simulation) ∧
    ∀ e, decode (doc.simulation.code :: x) = .error e →
      decode (a ++ x) = .error (e.further (a.length - 1)) := by
  obtain ⟨chunks, hforms, rfl⟩ := decode_eq_ok_iff.mp h
  have hown : Cursor.readRecords ⟨chunks.flatten, 1⟩ = .ok doc.records :=
    Cursor.readRecords_eq_ok_iff.mpr ⟨chunks, hforms, rfl⟩
  have hlater : Cursor.readRecords ⟨x, 1 + chunks.flatten.length⟩ =
      (Cursor.readRecords ⟨x, 1⟩).mapError (·.further chunks.flatten.length) :=
    Cursor.readRecords_further chunks.flatten.length ⟨x, 1⟩
  have hwhole := Cursor.readRecords_append hown x
  rw [hlater] at hwhole
  rw [List.cons_append, decode_code, decode_code, hwhole, List.length_cons, Nat.add_sub_cancel]
  cases Cursor.readRecords ⟨x, 1⟩ with
  | error e =>
    refine ⟨nofun, nofun, fun e' he => ?_⟩
    cases he
    rfl
  | ok rs =>
    refine ⟨fun rs' hrs => ?_, fun doc' hdoc => ?_, nofun⟩
    · cases hrs
      rfl
    · cases hdoc
      rfl

/-- A rate, and then a scene whose name is no text. -/
theorem decode_append_rate :
    decode [2, 3, 0, 1, 0, 0, 0, 0, 0, 0, 240, 63] =
        .ok ⟨.escape, [.spawnRate ⟨0x3FF0000000000000⟩]⟩ ∧
      decode [2, 1, 0, 255, 0, 1, 255] = .error (.invalidText 6) ∧
      decode ([2, 3, 0, 1, 0, 0, 0, 0, 0, 0, 240, 63] ++ [1, 0, 255, 0, 1, 255]) =
        .error (.invalidText 17) := by
  have hrate : decode [2, 3, 0, 1, 0, 0, 0, 0, 0, 0, 240, 63] =
      .ok ⟨.escape, [.spawnRate ⟨0x3FF0000000000000⟩]⟩ := by
    cbv
  have hname : decode [2, 1, 0, 255, 0, 1, 255] = .error (.invalidText 6) := by
    cbv
  obtain ⟨-, -, hfails⟩ := decode_append hrate [1, 0, 255, 0, 1, 255]
  exact ⟨hrate, hname, hfails _ hname⟩

end Document

end CrowdScenario

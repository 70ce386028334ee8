import CrowdScenario.Proofs.Wire.Truncation

/-!
# Progress of reading

Every record takes four bytes or more, so a document has room for few records (`length_le`). Where
reading fails, the records before that place are a document of their own, and a place that is blamed
lies between the start of the record that fails and the end of the bytes (`Stuck.split`, `Locates`).
-/

namespace CrowdScenario

def DecodeError.offset? : DecodeError → Option Nat
  | truncated offset _ => some offset
  | unknownSection _ offset => some offset
  | unknownDistribution _ offset => some offset
  | invalidText offset => some offset
  | _ => none

namespace Record

theorem length_memberBytes_pos {tag : GeometryTag} {values : List Int64}
    (h : values.length = tag.arity) : 1 ≤ (Geometry.memberBytes tag.layout values).length := by
  obtain ⟨width, ws, hlayout⟩ : ∃ width ws, tag.layout = width :: ws := by
    cases tag <;> exact ⟨_, _, rfl⟩
  rw [GeometryTag.arity, hlayout] at h
  cases values with
  | nil => cases h
  | cons v vs =>
    rw [hlayout, Geometry.memberBytes, List.length_append, MemberWidth.toBytes,
      Bytes.length_bigEndian]
    cases width <;> exact Nat.le_add_right_of_le (by decide)

theorem PayloadForm.length_pos {r : Record} {bs : Bytes} (h : r.PayloadForm bs) :
    1 ≤ bs.length := by
  cases r with
  | geometry g =>
    obtain ⟨hlength, -, rfl⟩ := h
    exact length_memberBytes_pos hlength
  | sceneFile name =>
    have hbytes : textBytes? name = .ok bs := h
    unfold textBytes? at hbytes
    simp only at hbytes
    split at hbytes
    · cases hbytes
      rw [List.length_append, Bytes.length_bigEndian]
      omega
    · cases hbytes
  | endTime t =>
    obtain ⟨-, rfl⟩ := h
    rw [Bytes.length_bigEndian]
    decide
  | distribution c d =>
    obtain ⟨-, rfl⟩ := h
    rw [Distribution.length_toBytes]
    decide
  | densityEnabled enabled =>
    obtain ⟨x, rfl, -⟩ := h
    exact Nat.le_refl 1
  | _ =>
    cases h
    rw [Binary64.length_toBytes]
    decide

theorem Form.length_ge {r : Record} {bs : Bytes} (h : r.Form bs) : 4 ≤ bs.length := by
  obtain ⟨payload, hpayload, rfl⟩ := h
  have hpos := hpayload.length_pos
  rw [List.length_append, Coordinate.length_toBytes]
  omega

end Record

namespace Cursor

theorem readRecord_advances {c next : Cursor} {r : Record} (h : readRecord c = .ok (r, next)) :
    c.offset + 4 ≤ next.offset := by
  obtain ⟨bs, hform, htook⟩ := (exact_readRecord c r next).mp h
  have hlength := hform.length_ge
  rw [htook.offset]
  omega

theorem readRecords_length_le {c : Cursor} {rs : List Record} (h : readRecords c = .ok rs) :
    4 * rs.length ≤ c.rest.length := by
  obtain ⟨chunks, hforms, hrest⟩ := readRecords_eq_ok_iff.mp h
  rw [hrest]
  clear h hrest
  -- The bytes are the forms of the records one behind the other, of four bytes or more each.
  induction hforms with
  | nil => exact Nat.le_refl 0
  | cons hform _ ih =>
    have hlength := hform.length_ge
    rw [List.length_cons, List.flatten_cons, List.length_append]
    omega

/-- A step, which may know an offset behind it, blames no place before that offset and none behind
the end of the bytes. -/
def Locates {α : Type} (step : Nat → Read α) : Prop :=
  ∀ offset c e place, offset ≤ c.offset → step offset c = .error e → e.offset? = some place →
    offset ≤ place ∧ place ≤ c.size

theorem locates_take (n : Nat) : Locates fun _ => take n := by
  intro offset c e place hoffset h hplace
  obtain ⟨-, rfl⟩ := take_eq_error h
  cases hplace
  exact ⟨hoffset, Nat.le_add_right _ _⟩

theorem locates_fail {α : Type} {e : Nat → DecodeError} (he : Blames e) :
    Locates fun offset => (fail (e offset) : Read α) := by
  intro offset c e' place hoffset h hplace
  obtain rfl : place = offset := by
    cases he <;> cases h <;> cases hplace <;> rfl
  exact ⟨Nat.le_refl _, Nat.le_trans hoffset (Nat.le_add_right _ _)⟩

theorem locates_andThen {α β : Type} {step : Nat → Read α} {following : Nat → α → Read β}
    (hs : Locates step) (hstreams : ∀ offset, Streams (step offset))
    (hf : ∀ a, Locates fun offset => following offset a) :
    Locates fun offset => andThen (step offset) (following offset) := by
  intro offset c e place hoffset h hplace
  obtain h | ⟨a, mid, ha, hb⟩ := andThen_eq_error h
  · exact hs offset c e place hoffset h hplace
  · obtain ⟨hle, hsize⟩ := (hstreams offset).place ha
    have hlater := hf a offset mid e place (Nat.le_trans hoffset hle) hb hplace
    rwa [hsize] at hlater

theorem locates_here {α : Type} {step : Nat → Read α} (hs : Locates step) :
    Locates fun _ c => step c.offset c := by
  intro offset c e place hoffset h hplace
  obtain ⟨hlow, hhigh⟩ := hs c.offset c e place (Nat.le_refl _) h hplace
  exact ⟨Nat.le_trans hoffset hlow, hhigh⟩

theorem Composed.locates {α : Type} {step : Nat → Read α} (h : Composed step) : Locates step := by
  induction h with
  | take n => exact locates_take n
  | pure a => exact nofun
  | fail he => exact locates_fail he
  | andThen hstep _ hs hf => exact locates_andThen hs hstep.streams hf
  | here _ hs => exact locates_here hs

/-- The bytes before the record that fails are the records before it. -/
theorem Stuck.split {c : Cursor} {e : DecodeError} (h : Stuck e c) :
    ∃ bs rs next, readRecords ⟨bs, c.offset⟩ = .ok rs ∧ Took c next bs ∧ next.rest ≠ [] ∧
      readRecord next = .error e := by
  -- A record in front of the failure is read alike where the bytes end before the failure.
  induction h with
  | @here c ahead fails =>
    exact ⟨[], [], c, readRecords_of_nil rfl, took_nil.mpr rfl, ahead, fails⟩
  | @behind c r mid reads _ ih =>
    obtain ⟨bs, rs, next, hrs, htook, ahead, fails⟩ := ih
    obtain ⟨chunk, hform, hchunk⟩ := (exact_readRecord c r mid).mp reads
    refine ⟨chunk ++ bs, r :: rs, next, ?_, took_append.mpr ⟨mid, hchunk, htook⟩, ahead, fails⟩
    refine readRecords_eq_cons.mpr ⟨⟨bs, mid.offset⟩, ?_, hrs⟩
    exact (exact_readRecord _ r _).mpr ⟨chunk, hform, rfl, hchunk.offset⟩

end Cursor

namespace Document

variable {b : Bytes} {e : DecodeError}

theorem length_le {doc : Document} (h : decode b = .ok doc) :
    doc.records.length ≤ (b.length - 1) / 4 := by
  cases b with
  | nil => cases h
  | cons code rest =>
    have hroom : 4 * doc.records.length ≤ rest.length :=
      Cursor.readRecords_length_le (decode_cons_eq_ok.mp h).2
    rw [List.length_cons, Nat.add_sub_cancel, Nat.le_div_iff_mul_le (by decide)]
    omega

theorem opened_of_place {place : Nat} (h : decode b = .error e) (hplace : e.offset? = some place) :
    ∃ code rest s, b = code :: rest ∧ Simulation.ofCode? code = some s := by
  cases b with
  | nil =>
    cases h
    cases hplace
  | cons code rest =>
    cases hs : Simulation.ofCode? code with
    | none =>
      rw [decode, hs] at h
      cases h
      cases hplace
    | some s => exact ⟨code, rest, s, rfl, hs⟩

/-- Behind a kind of simulation, reading fails in a record. What is before the record is a document,
and a place that the failure tells of is not. -/
theorem fails_in_record {code : Byte} {rest : Bytes} {s : Simulation}
    (hs : Simulation.ofCode? code = some s) (h : decode (code :: rest) = .error e) :
    ∃ start rs, 1 ≤ start ∧ start < (code :: rest).length ∧
      decode ((code :: rest).take start) = .ok ⟨s, rs⟩ ∧
      Cursor.readRecord ⟨(code :: rest).drop start, start⟩ = .error e ∧
      ∀ place, e.offset? = some place → start ≤ place ∧ place ≤ (code :: rest).length := by
  obtain ⟨bs, rs, next, hrs, ⟨hrest, hoffset⟩, ahead, fails⟩ :=
    ((decode_cons_eq_error hs).mp h).split
  simp only at hrest hoffset
  have hstart : next.offset = bs.length + 1 := by omega
  have hnext : next = ⟨(code :: rest).drop (bs.length + 1), bs.length + 1⟩ := by
    rw [List.drop_succ_cons, hrest, List.drop_left, ← hstart]
  have hpos := List.length_pos_of_ne_nil ahead
  have hsize : next.size = (code :: rest).length := by
    rw [Cursor.size, hoffset, List.length_cons, hrest, List.length_append]
    omega
  refine ⟨bs.length + 1, rs, Nat.le_add_left 1 _, ?_, ?_, ?_, fun place hplace => ?_⟩
  · rw [← hsize, Cursor.size, hstart]
    omega
  · rw [List.take_succ_cons, hrest, List.take_left]
    exact decode_cons_eq_ok.mpr ⟨hs, hrs⟩
  · rw [← hnext]
    exact fails
  · have hlocates := Cursor.composed_readRecord.locates
    have hplaced := hlocates next.offset next e place (Nat.le_refl _) fails hplace
    rwa [hsize, hstart] at hplaced

end Document

end CrowdScenario
